import WorkflowAudit.Yaml.Read

namespace WorkflowAudit.Yaml

namespace Value

mutual

def exactly : Value → Value → Bool
  | .null, .null => true
  | .bool a, .bool b => a = b
  | .number (.int a), .number (.int b) => a = b
  | .string a, .string b => a = b
  | .sequence as, .sequence bs => exactlyItems as bs
  | .mapping as, .mapping bs => exactlyEntries as bs
  | .tagged s a, .tagged t b => s = t && exactly a b
  | _, _ => false

def exactlyItems : List Value → List Value → Bool
  | [], [] => true
  | a :: as, b :: bs => exactly a b && exactlyItems as bs
  | _, _ => false

def exactlyEntries : Mapping → Mapping → Bool
  | [], [] => true
  | (k, v) :: as, (l, w) :: bs => exactly k l && exactly v w && exactlyEntries as bs
  | _, _ => false

end

mutual

theorem eq_of_exactly : ∀ {a b : Value}, exactly a b → a = b
  | .null, .null, _ => rfl
  | .bool _, .bool _, h => by simpa [exactly] using h
  | .number (.int _), .number (.int _), h => by simpa [exactly] using h
  | .string _, .string _, h => by simpa [exactly] using h
  | .sequence _, .sequence _, h => congrArg _ (eq_of_exactlyItems h)
  | .mapping _, .mapping _, h => congrArg _ (eq_of_exactlyEntries h)
  | .tagged _ _, .tagged _ _, h => by
    simp only [exactly, Bool.and_eq_true, decide_eq_true_eq] at h
    rw [h.1, eq_of_exactly h.2]

theorem eq_of_exactlyItems : ∀ {as bs : List Value}, exactlyItems as bs → as = bs
  | [], [], _ => rfl
  | _ :: _, _ :: _, h => by
    simp only [exactlyItems, Bool.and_eq_true] at h
    rw [eq_of_exactly h.1, eq_of_exactlyItems h.2]

theorem eq_of_exactlyEntries : ∀ {as bs : Mapping}, exactlyEntries as bs → as = bs
  | [], [], _ => rfl
  | (_, _) :: _, (_, _) :: _, h => by
    simp only [exactlyEntries, Bool.and_eq_true] at h
    rw [eq_of_exactly h.1.1, eq_of_exactly h.1.2, eq_of_exactlyEntries h.2]

end

end Value

def readsExactly (text : String) (v : Value) : Bool :=
  match read text with
  | .ok root => root.exactly v
  | .error _ => false

theorem read_eq_of_readsExactly {text : String} {v : Value} (h : readsExactly text v) :
    read text = .ok v := by
  unfold readsExactly at h
  split at h
  · rename_i root hread
    rw [hread, Value.eq_of_exactly h]
  · cases h

end WorkflowAudit.Yaml
