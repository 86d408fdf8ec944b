namespace WorkflowAudit.Workflow

inductive Issue
  | unreadable
  | rootNotMapping
  | sectionNotMapping (key : String)
  | sectionSkipped (key : String)
  | jobsUnreadable
  | jobSkipped (id : String)
  | jobNotMapping (id : String)
  | jobsNotMapping
  | noJobs
  deriving DecidableEq, Repr

namespace Issue

def readerText : String := "<yaml>"

def unreadableStart : String := "YAML parse failed, recovering by section: "

def jobsUnreadableStart : String := "Section 'jobs' is malformed ("

def jobsUnreadableEnd : String := "), recovering per job"

def sectionStart : String := "Section '"

def jobStart : String := "Job '"

def skippedMark : String := "' skipped: "

def message : Issue → String
  | .unreadable => unreadableStart ++ readerText
  | .rootNotMapping => "Document root is not a mapping"
  | .sectionNotMapping key => sectionStart ++ key ++ "' is not a mapping, skipped"
  | .sectionSkipped key => sectionStart ++ key ++ skippedMark ++ readerText
  | .jobsUnreadable => jobsUnreadableStart ++ readerText ++ jobsUnreadableEnd
  | .jobSkipped id => jobStart ++ id ++ skippedMark ++ readerText
  | .jobNotMapping id => jobStart ++ id ++ "' is not a mapping, skipped"
  | .jobsNotMapping => "'jobs' section is not a mapping"
  | .noJobs => "No 'jobs' section found in workflow"

def isLoss (i : Issue) : Bool := i ≠ .noJobs

end Issue

end WorkflowAudit.Workflow
