import AgentProcs.Daemon.Forwarding

/-!
# Daemon/Hosts — the host of an advertised URL, on its way to the proxy

    name ──processUrl──▸ http://name.localhost:pp ──urlHost──▸ name.localhost:pp
                                                                 │ a client's spelling
              name ◂──extractSubdomain── Host: name.localhost:pp ◂┘

A host means the same in any case, and what may not stand in one is percent-encoded: some clients
send the host along as it is, others bring it into a normal form.  The proxy compares characters.
-/

namespace AgentProcs

/-- The marks that may stand in a label of a host as they are. -/
def MARKS : String := "-_~!$&'()*+,;="

/-- A name that is the same in every spelling, and one label of its host. -/
def Routable (name : String) : Prop :=
  ∀ c ∈ name.toList, (c.isLower || c.isDigit || MARKS.toList.contains c) = true

instance (name : String) : Decidable (Routable name) :=
  List.decidableBAll _ _

example : Routable "web_1" ∧ ¬ Routable "API" ∧ ¬ Routable "tenant.api" ∧ ¬ Routable "é" := by
  decide

/-- **What is accepted while the proxy is on** is routable. -/
theorem routable_of_isValidDnsLabel {name : String} (h : isValidDnsLabel name = true) :
    Routable name := by
  rw [isValidDnsLabel] at h
  split at h
  · exact absurd h (by simp)
  split at h
  · exact absurd h (by simp)
  · intro c hc
    have hallowed := List.all_eq_true.mp h c hc
    simp only [Bool.or_eq_true, beq_iff_eq] at hallowed ⊢
    refine hallowed.imp_right ?_
    rintro rfl
    decide

/-! ## Spellings -/

/-- How a client writes the host of a URL into its request. -/
inductive Spelling where
  | verbatim
  | lowerCase
  | percentEncoded
  deriving DecidableEq, Repr

/-- May stand in a host, with its port, as it is. -/
def hostChar (c : Char) : Bool :=
  c.isAlphanum || MARKS.toList.contains c || c == '.' || c == ':'

/-- A byte as a percent sign and two hexadecimal digits. -/
def percentByte (b : UInt8) : List Char :=
  ['%', Nat.digitChar (b.toNat / 16), Nat.digitChar (b.toNat % 16)]

def Spelling.char : Spelling → Char → List Char
  | verbatim, c => [c]
  | lowerCase, c => [c.toLower]
  | percentEncoded, c =>
    if hostChar c then [c] else (String.utf8EncodeChar c).flatMap percentByte

namespace Spelling

end Spelling

end AgentProcs
