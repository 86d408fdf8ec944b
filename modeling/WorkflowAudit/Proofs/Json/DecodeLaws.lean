import WorkflowAudit.Json.Decode
import WorkflowAudit.Proofs.KeyMapLaws
import WorkflowAudit.Proofs.TraversalLaws

namespace WorkflowAudit.Json

variable {α : Type} {read : Json → Option α} {write : α → Json}

@[simp] theorem string?_str (s : String) : string? (.str s) = some s := rfl

@[simp] theorem bool?_bool (b : Bool) : bool? (.bool b) = some b := rfl

def IsWord (n : Nat) : Prop := n < Nat.pow 2 64

instance : DecidablePred IsWord := fun _ => inferInstanceAs (Decidable (_ < _))

theorem nat64?_ofNat {n : Nat} (h : IsWord n) : nat64? (ofNat n) = some n := by
  have hle : n ≤ Nat.pow 2 64 - 1 := Nat.le_sub_one_of_lt h
  simpa [nat64?, natUpTo?, ofNat] using hle

theorem listOf?_map {l : List α} (h : ∀ a ∈ l, read (write a) = some a) :
    listOf? read (.arr (l.map write)) = some l := by
  rw [listOf?, List.mapM_map, mapM_eq_some (g := id), List.map_id]
  exact h

@[simp] theorem listOf?_ofStrings (l : List String) : listOf? string? (ofStrings l) = some l :=
  listOf?_map fun s _ => string?_str s

theorem mapOf?_ofMap {m : KeyMap α} (h : ∀ e ∈ m.entries, read (write e.2) = some e.2) :
    mapOf? read (ofMap write m) = some m := by
  have hmembers : (m.entries.map fun e => (e.1, write e.2)).mapM
      (fun e => (read e.2).map (e.1, ·)) = some m.entries := by
    rw [List.mapM_map, mapM_eq_some (g := id), List.map_id]
    intro e he
    simp [h e he]
  simp only [Option.map_eq_bind] at hmembers
  rw [ofMap, mapOf?]
  exact (congrArg (·.bind (some <| KeyMap.ofList ·)) hmembers).trans
    (congrArg some (KeyMap.ofList_entries m))

theorem nullable?_of_ne_null {j : Json} (h : j ≠ .null) :
    nullable? read j = (read j).map some := by
  cases j with
  | null => exact absurd rfl h
  | bool | num | str | arr | obj => rfl

@[simp] theorem nullable?_str (s : String) : nullable? read (.str s) = (read (.str s)).map some :=
  nullable?_of_ne_null fun h => nomatch h

theorem nullable?_ofOption {o : Option α} (hread : ∀ a ∈ o, read (write a) = some a)
    (hnull : ∀ a, write a ≠ .null) : nullable? read (ofOption write o) = some o := by
  cases o with
  | none => rfl
  | some a => rw [ofOption, nullable?_of_ne_null (hnull a), hread a rfl, Option.map_some]

@[simp] theorem nullable?_ofOption_str (o : Option String) :
    nullable? string? (ofOption .str o) = some o :=
  nullable?_ofOption (fun s _ => string?_str s) fun _ h => nomatch h

@[simp] theorem nullable?_ofOption_bool (o : Option Bool) :
    nullable? bool? (ofOption .bool o) = some o :=
  nullable?_ofOption (fun b _ => bool?_bool b) fun _ h => nomatch h

@[simp] theorem nullable?_ofOption_ofStrings (o : Option (List String)) :
    nullable? (listOf? string?) (ofOption ofStrings o) = some o :=
  nullable?_ofOption (fun l _ => listOf?_ofStrings l) fun _ h => nomatch h

section Fields

variable {names : List String} {optional : Nat} {members fields : List (String × Json)}
  {name other : String} {j : Json} {standard : α}

@[simp] theorem record?_obj : record? names optional (.obj members) = some members := rfl

@[simp] theorem field?_cons_self : field? ((name, j) :: fields) name read = read j := by
  simp [field?]

@[simp] theorem field?_cons_of_ne (h : name ≠ other) :
    field? ((other, j) :: fields) name read = field? fields name read := by
  simp [field?, KeyMap.lookup_cons_eq_ite, h]

@[simp] theorem nullableField?_nil : nullableField? [] name read = some none := rfl

@[simp] theorem nullableField?_cons_self :
    nullableField? ((name, j) :: fields) name read = nullable? read j := by
  simp [nullableField?]

@[simp] theorem nullableField?_cons_of_ne (h : name ≠ other) :
    nullableField? ((other, j) :: fields) name read = nullableField? fields name read := by
  simp [nullableField?, KeyMap.lookup_cons_eq_ite, h]

@[simp] theorem defaultField?_cons_self :
    defaultField? ((name, j) :: fields) name standard read = read j := by
  simp [defaultField?]

@[simp] theorem defaultField?_cons_of_ne (h : name ≠ other) :
    defaultField? ((other, j) :: fields) name standard read =
      defaultField? fields name standard read := by
  simp [defaultField?, KeyMap.lookup_cons_eq_ite, h]

end Fields

end WorkflowAudit.Json
