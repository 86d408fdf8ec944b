namespace WorkflowAudit.Text

def splitOn (separator : Char) : List Char → List (List Char)
  | [] => [[]]
  | c :: s =>
    if c = separator then [] :: splitOn separator s
    else match splitOn separator s with
      | [] => [[c]]
      | piece :: rest => (c :: piece) :: rest

theorem splitOn_ne_nil (separator : Char) (s : List Char) : splitOn separator s ≠ [] := by
  cases s with
  | nil => simp [splitOn]
  | cons c s =>
    simp only [splitOn]
    split
    · simp
    · split <;> simp

def insertAfter (mark added : List Char) (s : List Char) : List Char :=
  match s with
  | [] => []
  | c :: rest =>
    if !mark.isEmpty && mark.isPrefixOf (c :: rest) then
      mark ++ added ++ insertAfter mark added (rest.drop (mark.length - 1))
    else c :: insertAfter mark added rest
termination_by s.length
decreasing_by all_goals simp only [List.length_drop, List.length_cons]; omega

end WorkflowAudit.Text
