namespace WorkflowAudit.Text

def blankText (width : Nat) : String := String.ofList (List.replicate width ' ')

def padEnd (width : Nat) (s : String) : String := s ++ blankText (width - s.length)

def padStart (width : Nat) (s : String) : String := blankText (width - s.length) ++ s

def page (lines : List String) : String := String.join (lines.map (· ++ "\n"))

end WorkflowAudit.Text
