import Mathlib.Data.Int.ModEq

/-! Numerals read digit by digit, as a loop over characters reads them: the value so far is multiplied and
the digit is added, in the arithmetic of a machine. Where that arithmetic is modular the result is the exact
value, cast once. A numeral may be followed by a separator and by anything behind it. -/

namespace RpcMt.Numerals

variable {α : Type} (digit : α → Option Int) (cast : Int → Int) (base : Int)

/-- The characters read as digits behind the value `n`. -/
def readFrom (n : Int) : List α → Option Int
  | [] => some n
  | c :: cs => (digit c).bind fun d => readFrom (cast (cast (n * base) + d)) cs

/-- The value of a numeral, exactly. -/
def value (cs : List α) : Option Int := readFrom digit id base 0 cs

/-- The characters up to a separator or to the end, and the rest. -/
def field (stop : α → Bool) (cs : List α) : List α := cs.takeWhile fun c => !stop c

def afterField (stop : α → Bool) (cs : List α) : List α := cs.dropWhile fun c => !stop c

/-- The loop that reads digits up to a separator or to the end, with what it leaves. -/
def readUntil (stop : α → Bool) (n : Int) : List α → Option (Int × List α)
  | [] => some (n, [])
  | c :: cs =>
      if stop c then some (n, c :: cs)
      else (digit c).bind fun d => readUntil stop (cast (cast (n * base) + d)) cs

theorem readUntil_eq (stop : α → Bool) (n : Int) (cs : List α) :
    readUntil digit cast base stop n cs =
      (readFrom digit cast base n (field stop cs)).map fun m => (m, afterField stop cs) := by
  induction cs generalizing n with
  | nil => rfl
  | cons c cs ih =>
      rw [readUntil, field, afterField, List.takeWhile_cons, List.dropWhile_cons]
      cases stop c with
      | true => rfl
      | false =>
          show ((digit c).bind fun d => readUntil digit cast base stop (cast (cast (n * base) + d)) cs) = _
          simp only [Bool.not_false, if_true, readFrom]
          cases digit c with
          | none => rfl
          | some d => exact ih _

/-- The arithmetic of a machine word: what a step computes depends on its operands up to a cast only. -/
structure Modular (cast : Int → Int) : Prop where
  add : ∀ a b, cast (cast a + b) = cast (a + b)
  mul : ∀ a k, cast (cast a * k) = cast (a * k)

variable {digit cast base}

theorem readFrom_modular (h : Modular cast) (n : Int) (cs : List α) :
    readFrom digit cast base (cast n) cs = (readFrom digit id base n cs).map cast := by
  induction cs generalizing n with
  | nil => rfl
  | cons c cs ih =>
      rw [readFrom, readFrom]
      cases digit c with
      | none => rfl
      | some d =>
          show readFrom digit cast base (cast (cast (cast n * base) + d)) cs = _
          rw [h.mul, h.add]
          exact ih (n * base + d)

theorem readFrom_zero (h : Modular cast) (hzero : cast 0 = 0) (cs : List α) :
    readFrom digit cast base 0 cs = (value digit base cs).map cast := by
  have hread := @readFrom_modular _ digit _ base h 0 cs
  rwa [hzero] at hread

theorem readFrom_nonneg (hdigit : ∀ c d, digit c = some d → 0 ≤ d) (hbase : 0 ≤ base) {n v : Int} (hn : 0 ≤ n)
    {cs : List α} (h : readFrom digit id base n cs = some v) : 0 ≤ v := by
  induction cs generalizing n with
  | nil =>
      cases h
      exact hn
  | cons c cs ih =>
      obtain ⟨d, hd, h⟩ := Option.bind_eq_some_iff.mp h
      exact ih (Int.add_nonneg (Int.mul_nonneg hn hbase) (hdigit c d hd)) h

theorem value_nonneg (hdigit : ∀ c d, digit c = some d → 0 ≤ d) (hbase : 0 ≤ base) {v : Int} {cs : List α}
    (h : value digit base cs = some v) : 0 ≤ v :=
  readFrom_nonneg hdigit hbase (Int.le_refl 0) h

end RpcMt.Numerals
