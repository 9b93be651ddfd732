import Embassy.AdminClients
import Embassy.PartnerGate

/-!
# What the admin's clients do with an answer

`Expected` is the shape of a usable answer, request by request, and `Reported` the other answers that the
functions turn into `ok=False` and an error. On what is neither they raise, or return a success made of it:
a call keeps its contract exactly if every answer it gets is expected or one of them is reported.
-/

namespace Embassy
open Lib

namespace Admin

open Json (get?)

def IsInt (v : Json) : Prop := ∃ text, v = .num text ∧ (intLiteral text.toList).isSome

section
variable (loads : List UInt8 → Except PyExc Json)

section
variable {α : Type} (Report : Except PyExc (Result α) → Prop)

end

variable {loads} {text : PyExc → List UInt8} {audience uuid : String} {α : Type}
  {Report : Except PyExc (Result α) → Prop} {t : List (Request × Answer)} {x : Request × Answer}
  {res : Except PyExc (Result α)} {o : Attempt} {shape : Json → Prop} {good : List ℕ}

theorem truthy_str {s : String} : (Json.str s).truthy = true ↔ s ≠ "" := by simp [Json.truthy]

section
variable (h : ∀ status body, o ≠ .response status body)
include h

end

variable {status : ℕ} {body : List UInt8}

section
variable {refused : ℕ → String} {other : ℕ → Option (Result α)} {k : List UInt8 → Except PyExc (Result α)}

variable (hex : exchange text x = .ok (status, body))
include hex

theorem answered_other {r : Result α} (hother : other status = some r) :
    answered text good refused other k x = .ok r := by
  rw [answered, hex]
  simp only [bind, Except.bind, hother]
  rfl

theorem answered_good (hother : other status = none) (hgood : status ∈ good) :
    answered text good refused other k x = k body := by
  rw [answered, hex]
  simp only [bind, Except.bind, hother, if_pos hgood]

end

section
variable {unparseable : String} {f : Json → Except PyExc (Result α)}

theorem decoded_ok {v : Json} (h : loads body = .ok v) : decoded loads body unparseable f = f v := by
  rw [decoded, h]

end

end

end Admin

end Embassy
