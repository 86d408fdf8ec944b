namespace WorkflowAudit.Text.Utf8

structure Pending where
  bits : Nat
  missing : Nat
  lower : Nat
  upper : Nat

def begin? (b : Nat) : Option (Char ⊕ Pending) :=
  if b < 0x80 then some (.inl (Char.ofNat b))
  else if 0xC2 ≤ b && b ≤ 0xDF then some (.inr ⟨b - 0xC0, 1, 0x80, 0xBF⟩)
  else if 0xE0 ≤ b && b ≤ 0xEF then
    some (.inr ⟨b - 0xE0, 2, if b = 0xE0 then 0xA0 else 0x80, if b = 0xED then 0x9F else 0xBF⟩)
  else if 0xF0 ≤ b && b ≤ 0xF4 then
    some (.inr ⟨b - 0xF0, 3, if b = 0xF0 then 0x90 else 0x80, if b = 0xF4 then 0x8F else 0xBF⟩)
  else none

def replacement : Char := '\uFFFD'

/-- Reads on. A byte that does not continue what was begun ends it and is looked at anew. -/
def decodeFrom : Option Pending → List UInt8 → List Char
  | none, [] => []
  | some _, [] => [replacement]
  | some p, b :: rest =>
    if p.lower ≤ b.toNat && b.toNat ≤ p.upper then
      let bits := p.bits * 64 + (b.toNat - 0x80)
      if p.missing = 1 then Char.ofNat bits :: decodeFrom none rest
      else decodeFrom (some ⟨bits, p.missing - 1, 0x80, 0xBF⟩) rest
    else match begin? b.toNat with
      | some (.inl c) => replacement :: c :: decodeFrom none rest
      | some (.inr p) => replacement :: decodeFrom (some p) rest
      | none => replacement :: replacement :: decodeFrom none rest
  | none, b :: rest =>
    match begin? b.toNat with
    | some (.inl c) => c :: decodeFrom none rest
    | some (.inr p) => decodeFrom (some p) rest
    | none => replacement :: decodeFrom none rest

def decode (bytes : List UInt8) : List Char :=
  match decodeFrom none bytes with
  | '\uFEFF' :: rest => rest
  | s => s

end WorkflowAudit.Text.Utf8
