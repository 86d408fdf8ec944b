namespace WorkflowAudit

def programName : String := "ciaudit"

def programVersion : String := "0.3.0"

end WorkflowAudit
