import RpcMt.Numerals
import RpcMt.Runs
import RpcMt.SvcConfig

/-! What a configuration command does for every command string. A command that is refused should leave the
variables alone, and one that is accepted should store the numerals as they are written. The setters of
`fd-range` and `jiffy` do neither: they read their argument without a test for null, the bounds of a region
are stored as they are read, and nothing looks at the length of a numeral or at its value. -/

open RpcMt.Numerals RpcMt.Runs

namespace RpcMt.SvcConfig

/-! ### Reading a command -/

theorem castInt_modular (w : Nat) : Modular (castInt w) := by
  have hcongr : ∀ a b : Int, a ≡ b [ZMOD 2 ^ w] → castInt w a = castInt w b := by
    intro a b hab
    have hmod : (a + 2 ^ (w - 1)) % 2 ^ w = (b + 2 ^ (w - 1)) % 2 ^ w := hab.add_right _
    rw [castInt, castInt, hmod]
  have hcast : ∀ a : Int, castInt w a ≡ a [ZMOD 2 ^ w] := by
    intro a
    have hsub := (Int.mod_modEq (a + 2 ^ (w - 1)) (2 ^ w)).sub_right (2 ^ (w - 1))
    rwa [Int.add_sub_cancel] at hsub
  exact ⟨fun a b => hcongr _ _ ((hcast a).add_right b), fun a k => hcongr _ _ ((hcast a).mul_right k)⟩

theorem castInt32_eq_self_iff {n : Int} (h : 0 ≤ n) : castInt 32 n = n ↔ n < 2 ^ 31 := by
  unfold castInt
  omega

theorem castInt64_eq_self_iff {n : Int} (h : 0 ≤ n) : castInt 64 n = n ↔ n < 2 ^ 63 := by
  unfold castInt
  omega

/-- The value of a decimal numeral of any length; the empty one has the value 0. -/
abbrev decimal (cs : List Char) : Option Int := value digit 10 cs

theorem digit_nonneg (c : Char) (d : Int) (h : digit c = some d) : 0 ≤ d := by
  unfold digit at h
  split at h
  · rename_i hrange
    cases h
    have hle : '0'.toNat ≤ c.toNat := hrange.1
    omega
  · cases h

theorem decimal_nonneg {cs : List Char} {v : Int} (h : decimal cs = some v) : 0 ≤ v :=
  value_nonneg digit_nonneg (by decide) h

theorem numeral_eq (cs : List Char) : numeral 0 cs = (decimal cs).map (castInt 64) := by
  have hloop : ∀ n, numeral n cs = readFrom digit (castInt 64) 10 n cs := by
    induction cs with
    | nil => exact fun _ => rfl
    | cons c cs ih =>
        intro n
        rw [numeral, readFrom]
        simp only [ih]
  rw [hloop]
  exact readFrom_zero (castInt_modular 64) rfl cs

def isSeparator (c : Char) : Bool := decide (c = ',' ∨ c = '-')

theorem bound_eq (cs : List Char) :
    bound 0 cs = (decimal (field isSeparator cs)).map fun v => (castInt 32 v, afterField isSeparator cs) := by
  have hloop : ∀ n, bound n cs = readUntil digit (castInt 32) 10 isSeparator n cs := by
    induction cs with
    | nil => exact fun _ => rfl
    | cons c cs ih =>
        intro n
        rw [bound, readUntil, isSeparator]
        simp only [ih, decide_eq_true_eq]
  rw [hloop, readUntil_eq, readFrom_zero (castInt_modular 32) rfl, Option.map_map]
  rfl

/-- The characters that end the name of a command. -/
def endsName (c : Char) : Bool := decide (c = ' ' ∨ c = '=')

def commandName (cmd : List Char) : List Char := field endsName cmd

/-- What is behind `=`, if the name ends there. -/
def commandArg (cmd : List Char) : Option (List Char) :=
  match afterField endsName cmd with
  | '=' :: arg => some arg
  | _ => none

theorem svcConfig_eq (cmd : List Char) (s : Config) :
    svcConfig cmd s = svcConfigLookup (commandName cmd) (commandArg cmd) s := by
  have hfrom : ∀ name, svcConfigFrom name cmd s = svcConfigLookup (name ++ commandName cmd) (commandArg cmd) s := by
    induction cmd with
    | nil =>
        intro name
        rw [svcConfigFrom, commandName, field, List.takeWhile_nil, List.append_nil]
        rfl
    | cons c cmd ih =>
        intro name
        rw [svcConfigFrom, commandName, commandArg, field, afterField, List.takeWhile_cons, List.dropWhile_cons]
        by_cases hspace : c = ' '
        · subst hspace
          simp [endsName]
        · by_cases heq : c = '='
          · subst heq
            simp [endsName]
          · rw [if_neg hspace, if_neg heq, ih]
            simp [endsName, hspace, heq, commandName, commandArg, field, afterField]
  exact hfrom []

/-! ### A region of descriptors -/

/-- The two bounds as they are written. -/
def loField (arg : List Char) : List Char := field isSeparator arg

def hiField (arg : List Char) : List Char := field isSeparator (afterField isSeparator arg).tail

/-- What is behind the second bound, its separator included. -/
def afterBounds (arg : List Char) : List Char := afterField isSeparator (afterField isSeparator arg).tail

/-- The order that is written behind the bounds. -/
def orderOf (arg : List Char) : Option Int :=
  match (afterBounds arg).tail.head? with
  | some '-' => some (-1)
  | some '+' => some 1
  | _ => none

theorem setFdBounds_eq (arg : List Char) (s : Config) : setFdBounds arg s =
    match decimal (loField arg) with
    | none => (some .einval, s)
    | some lo =>
        let s := { s with socketFdRegion.lo := castInt 32 lo }
        if afterField isSeparator arg = [] then (some .einval, s)
        else match decimal (hiField arg) with
          | none => (some .einval, s)
          | some hi =>
              let s := { s with socketFdRegion.hi := castInt 32 hi }
              match orderOf arg with
              | none => (some .einval, s)
              | some order => (none, { s with socketFdRegion.order := order }) := by
  unfold setFdBounds loField
  rw [bound_eq]
  cases decimal (field isSeparator arg) with
  | none => rfl
  | some lo =>
      simp only [Option.map_some, hiField, orderOf, afterBounds]
      cases afterField isSeparator arg with
      | nil => rfl
      | cons c rest =>
          simp only [bound_eq, List.tail_cons, reduceCtorEq, if_false]
          cases decimal (field isSeparator rest) with
          | none => rfl
          | some hi =>
              simp only [Option.map_some]
              cases afterField isSeparator rest with
              | nil => rfl
              | cons c' rest =>
                  simp only [List.tail_cons]
                  cases rest with
                  | nil => rfl
                  | cons o rest =>
                      by_cases hminus : o = '-'
                      · subst hminus
                        rfl
                      · by_cases hplus : o = '+'
                        · subst hplus
                          rfl
                        · simp [hminus, hplus]

/-- The setting of a region is complete: two numerals, each with its separator, and an order. -/
def IsRange (arg : List Char) : Prop :=
  (decimal (loField arg)).isSome = true ∧ (decimal (hiField arg)).isSome = true ∧ (orderOf arg).isSome = true

/-- Each bound that is read from the argument is the one that is set already. -/
def Rewrites (arg : List Char) (region : FdRegion) : Prop :=
  ∀ lo ∈ decimal (loField arg), castInt 32 lo = region.lo ∧
    (afterField isSeparator arg ≠ [] → ∀ hi ∈ decimal (hiField arg), castInt 32 hi = region.hi)

theorem setFdBounds_kept_iff (arg : List Char) (s : Config) :
    ((setFdBounds arg s).1 ≠ none → (setFdBounds arg s).2 = s) ↔ (¬ IsRange arg → Rewrites arg s.socketFdRegion) := by
  have hset : ∀ lo hi, { s with socketFdRegion := ⟨lo, hi, s.socketFdRegion.order⟩ } = s ↔
      lo = s.socketFdRegion.lo ∧ hi = s.socketFdRegion.hi := by
    intro lo hi
    constructor
    · intro heq
      have hregion : FdRegion.mk lo hi s.socketFdRegion.order = s.socketFdRegion := congrArg Config.socketFdRegion heq
      rw [← hregion]
      exact ⟨rfl, rfl⟩
    · rintro ⟨rfl, rfl⟩
      rfl
  rw [setFdBounds_eq]
  unfold IsRange Rewrites
  cases hlo : decimal (loField arg) with
  | none => simp
  | some lo =>
      by_cases hend : afterField isSeparator arg = []
      · have horder : orderOf arg = none := by
          rw [orderOf, afterBounds, hend]
          rfl
        simp [hend, horder, hset]
      · simp only [if_neg hend]
        cases hhi : decimal (hiField arg) with
        | none => simp [hset]
        | some hi =>
            cases horder : orderOf arg with
            | none => simp [hset, hend]
            | some order => simp

/-! ### Refused commands -/

/-- The call returns, and changes no variable if it returns an error code. -/
def AllOrNothing (cmd : List Char) (s : Config) : Prop :=
  ∃ err t, svcConfig cmd s = .ok (err, t) ∧ (err ≠ none → t = s)

/-- `fd-range` and `jiffy` have an argument, and a setting of a region that is not complete holds no bound
but the one that is set. -/
def Guarded (cmd : List Char) (s : Config) : Prop :=
  (commandName cmd = "fd-range".toList ∨ commandName cmd = "jiffy".toList → commandArg cmd ≠ none) ∧
    (commandName cmd = "fd-range".toList → ∀ arg ∈ commandArg cmd, arg ≠ "none".toList → ¬ IsRange arg →
      Rewrites arg s.socketFdRegion)

/-- A setter that returns, and stores nothing that it refuses. -/
def Keeps (r : Res (Option Errno × Config)) (s : Config) : Prop := ∃ err t, r = .ok (err, t) ∧ (err ≠ none → t = s)

theorem keeps_ok {err : Option Errno} {s t : Config} : Keeps (.ok (err, t)) s ↔ (err ≠ none → t = s) := by
  constructor
  · rintro ⟨_, _, heq, hkept⟩
    cases heq
    exact hkept
  · exact fun hkept => ⟨err, t, rfl, hkept⟩

theorem keeps_error {e : Fault} {s : Config} : ¬ Keeps (.error e) s := by
  rintro ⟨_, _, heq, _⟩
  cases heq

theorem svcConfigSetFdRange_keeps (arg : Option (List Char)) (s : Config) :
    Keeps (svcConfigSetFdRange arg s) s ↔ arg ≠ none ∧
      ∀ a ∈ arg, a ≠ "none".toList → ¬ IsRange a → Rewrites a s.socketFdRegion := by
  cases arg with
  | none => exact iff_of_false keeps_error fun h => h.1 rfl
  | some a =>
      rw [svcConfigSetFdRange]
      by_cases hnone : a = "none".toList
      · rw [if_pos hnone, keeps_ok]
        simp [hnone]
      · rw [if_neg hnone]
        have hset : Keeps (.ok (setFdBounds a s)) s ↔ ((setFdBounds a s).1 ≠ none → (setFdBounds a s).2 = s) := keeps_ok
        rw [hset, setFdBounds_kept_iff]
        constructor
        · intro h
          refine ⟨Option.some_ne_none a, ?_⟩
          rintro _ ⟨⟩ _
          exact h
        · exact fun h => h.2 a rfl hnone

theorem svcConfigSetMtmode_keeps (arg : Option (List Char)) (s : Config) : Keeps (svcConfigSetMtmode arg s) s := by
  unfold svcConfigSetMtmode
  split
  · split
    · exact keeps_ok.mpr fun h => absurd rfl h
    · exact keeps_ok.mpr fun _ => rfl
  · exact keeps_ok.mpr fun _ => rfl

theorem svcConfigSetJiffy_keeps (arg : Option (List Char)) (s : Config) :
    Keeps (svcConfigSetJiffy arg s) s ↔ arg ≠ none := by
  cases arg with
  | none => exact iff_of_false keeps_error fun h => h rfl
  | some a =>
      refine iff_of_true ?_ (Option.some_ne_none a)
      rw [svcConfigSetJiffy]
      split
      · exact keeps_ok.mpr fun _ => rfl
      · exact keeps_ok.mpr fun h => absurd rfl h

theorem svcConfigSetTrace_keeps (arg : Option (List Char)) (s : Config) : Keeps (svcConfigSetTrace arg s) s := by
  unfold svcConfigSetTrace
  split
  · exact keeps_ok.mpr fun _ => rfl
  · split
    · exact keeps_ok.mpr fun h => absurd rfl h
    · exact keeps_ok.mpr fun _ => rfl
  · exact keeps_ok.mpr fun _ => rfl

theorem svcConfigLookup_keeps (name : List Char) (arg : Option (List Char)) (s : Config) :
    Keeps (svcConfigLookup name arg s) s ↔
      (name = "fd-range".toList ∨ name = "jiffy".toList → arg ≠ none) ∧
        (name = "fd-range".toList → ∀ a ∈ arg, a ≠ "none".toList → ¬ IsRange a → Rewrites a s.socketFdRegion) := by
  unfold svcConfigLookup
  by_cases hfd : name = "fd-range".toList
  · rw [if_pos hfd, svcConfigSetFdRange_keeps]
    exact ⟨fun h => ⟨fun _ => h.1, fun _ => h.2⟩, fun h => ⟨h.1 (Or.inl hfd), h.2 hfd⟩⟩
  · by_cases hjiffy : name = "jiffy".toList
    · subst hjiffy
      refine Iff.trans (svcConfigSetJiffy_keeps arg s) ?_
      exact ⟨fun h => ⟨fun _ => h, fun heq => absurd heq hfd⟩, fun h => h.1 (Or.inr rfl)⟩
    · refine iff_of_true ?_ ⟨fun h => absurd h (not_or.mpr ⟨hfd, hjiffy⟩), fun h => absurd h hfd⟩
      rw [if_neg hfd, if_neg hjiffy]
      repeat' split
      all_goals first
        | exact svcConfigSetMtmode_keeps arg s
        | exact svcConfigSetTrace_keeps arg s
        | exact keeps_ok.mpr fun h => absurd rfl h
        | exact keeps_ok.mpr fun _ => rfl

/-- A command is all or nothing exactly if it is guarded. -/
theorem svcConfig_allOrNothing_iff (cmd : List Char) (s : Config) : AllOrNothing cmd s ↔ Guarded cmd s := by
  unfold AllOrNothing Guarded
  rw [svcConfig_eq]
  exact svcConfigLookup_keeps (commandName cmd) (commandArg cmd) s

theorem svcConfig_allOrNothing_counterexample : ¬ ∀ cmd s, AllOrNothing cmd s := by
  intro hall
  obtain ⟨err, t, hrun, hkept⟩ := hall "fd-range=5,x".toList initial
  have hstored : svcConfig "fd-range=5,x".toList initial =
      .ok (some .einval, { initial with socketFdRegion.lo := 5 }) := by decide +kernel
  cases hstored.symm.trans hrun
  have hlo := congrArg (fun c => c.socketFdRegion.lo) (hkept nofun)
  exact absurd hlo (by decide)

/-! ### Accepted commands -/

/-- The number is a numeral that is written there. -/
def Written (cs : List Char) (n : Int) : Prop := cs ≠ [] ∧ decimal cs = some n

/-- A number that the command has stored is the numeral in it, a region is not empty, and a jiffy is not
zero. -/
def Usable (cmd : List Char) (t : Config) : Prop :=
  (commandName cmd = "fd-range".toList → t.socketFdRegion.lo ≤ t.socketFdRegion.hi ∧
      ∀ arg ∈ commandArg cmd, arg ≠ "none".toList →
        Written (loField arg) t.socketFdRegion.lo ∧ Written (hiField arg) t.socketFdRegion.hi) ∧
    (commandName cmd = "jiffy".toList → 1 ≤ t.jiffy ∧ ∀ arg ∈ commandArg cmd, Written arg t.jiffy)

/-- The numerals have digits, the bounds are in order and in `int`, and a jiffy is positive and in `long`. -/
def Fits (cmd : List Char) : Prop :=
  (commandName cmd = "fd-range".toList → ∀ arg ∈ commandArg cmd, arg ≠ "none".toList →
      ∀ lo ∈ decimal (loField arg), ∀ hi ∈ decimal (hiField arg),
        loField arg ≠ [] ∧ hiField arg ≠ [] ∧ lo ≤ hi ∧ hi < 2 ^ 31) ∧
    (commandName cmd = "jiffy".toList → ∀ arg ∈ commandArg cmd, ∀ n ∈ decimal arg, 1 ≤ n ∧ n < 2 ^ 63)

theorem setFdBounds_ok {arg : List Char} {s t : Config} (h : setFdBounds arg s = (none, t)) :
    ∃ lo hi, decimal (loField arg) = some lo ∧ decimal (hiField arg) = some hi ∧
      t.socketFdRegion.lo = castInt 32 lo ∧ t.socketFdRegion.hi = castInt 32 hi := by
  rw [setFdBounds_eq] at h
  cases hlo : decimal (loField arg) with
  | none =>
      rw [hlo] at h
      cases h
  | some lo =>
      rw [hlo] at h
      dsimp only at h
      split at h
      · cases h
      · cases hhi : decimal (hiField arg) with
        | none =>
            rw [hhi] at h
            cases h
        | some hi =>
            rw [hhi] at h
            dsimp only at h
            split at h
            · cases h
            · cases h
              exact ⟨lo, hi, rfl, rfl, rfl, rfl⟩

/-- The numbers of an accepted region, against the numerals that were written. -/
theorem setFdBounds_written_iff {arg : List Char} {s t : Config} (h : setFdBounds arg s = (none, t)) :
    (t.socketFdRegion.lo ≤ t.socketFdRegion.hi ∧ Written (loField arg) t.socketFdRegion.lo ∧
        Written (hiField arg) t.socketFdRegion.hi) ↔
      ∀ lo ∈ decimal (loField arg), ∀ hi ∈ decimal (hiField arg),
        loField arg ≠ [] ∧ hiField arg ≠ [] ∧ lo ≤ hi ∧ hi < 2 ^ 31 := by
  obtain ⟨lo, hi, hlo, hhi, htlo, hthi⟩ := setFdBounds_ok h
  have hlo0 := decimal_nonneg hlo
  have hhi0 := decimal_nonneg hhi
  unfold Written
  rw [htlo, hthi, hlo, hhi, Option.some_inj, Option.some_inj]
  constructor
  · rintro ⟨hle, ⟨hlone, hlofix⟩, hhine, hhifix⟩
    rintro _ ⟨⟩ _ ⟨⟩
    rw [← hlofix, ← hhifix] at hle
    exact ⟨hlone, hhine, hle, (castInt32_eq_self_iff hhi0).mp hhifix.symm⟩
  · intro hfits
    obtain ⟨hlone, hhine, hle, hlt⟩ := hfits lo rfl hi rfl
    have hlofix := (castInt32_eq_self_iff hlo0).mpr (Int.lt_of_le_of_lt hle hlt)
    have hhifix := (castInt32_eq_self_iff hhi0).mpr hlt
    rw [hlofix, hhifix]
    exact ⟨hle, ⟨hlone, rfl⟩, hhine, rfl⟩

theorem svcConfigSetFdRange_usable_iff {arg : Option (List Char)} {s t : Config}
    (h : svcConfigSetFdRange arg s = .ok (none, t)) :
    (t.socketFdRegion.lo ≤ t.socketFdRegion.hi ∧ ∀ a ∈ arg, a ≠ "none".toList →
        Written (loField a) t.socketFdRegion.lo ∧ Written (hiField a) t.socketFdRegion.hi) ↔
      ∀ a ∈ arg, a ≠ "none".toList → ∀ lo ∈ decimal (loField a), ∀ hi ∈ decimal (hiField a),
        loField a ≠ [] ∧ hiField a ≠ [] ∧ lo ≤ hi ∧ hi < 2 ^ 31 := by
  cases arg with
  | none => cases h
  | some a =>
      rw [svcConfigSetFdRange] at h
      by_cases hnone : a = "none".toList
      · rw [if_pos hnone] at h
        cases h
        refine iff_of_true ⟨Int.le_refl 0, ?_⟩ ?_
        · rintro _ ⟨⟩ hne
          exact absurd hnone hne
        · rintro _ ⟨⟩ hne
          exact absurd hnone hne
      · rw [if_neg hnone] at h
        have hiff := setFdBounds_written_iff (Except.ok.inj h)
        constructor
        · rintro ⟨hle, hall⟩
          rintro _ ⟨⟩ _
          exact hiff.mp ⟨hle, hall a rfl hnone⟩
        · intro hall
          obtain ⟨hle, hwritten⟩ := hiff.mpr (hall a rfl hnone)
          refine ⟨hle, ?_⟩
          rintro _ ⟨⟩ _
          exact hwritten

theorem svcConfigSetJiffy_usable_iff {arg : Option (List Char)} {s t : Config}
    (h : svcConfigSetJiffy arg s = .ok (none, t)) :
    (1 ≤ t.jiffy ∧ ∀ a ∈ arg, Written a t.jiffy) ↔ ∀ a ∈ arg, ∀ n ∈ decimal a, 1 ≤ n ∧ n < 2 ^ 63 := by
  cases arg with
  | none => cases h
  | some a =>
      rw [svcConfigSetJiffy, numeral_eq] at h
      cases hn : decimal a with
      | none =>
          rw [hn] at h
          cases h
      | some n =>
          rw [hn] at h
          cases h
          have hfix := castInt64_eq_self_iff (decimal_nonneg hn)
          constructor
          · rintro ⟨hone, hall⟩
            have heq : decimal a = some (castInt 64 n) := (hall a rfl).2
            rw [hn, Option.some_inj] at heq
            rintro _ ⟨⟩ m hm
            cases hn.symm.trans hm
            have hone' : 1 ≤ castInt 64 n := hone
            rw [← heq] at hone'
            exact ⟨hone', hfix.mp heq.symm⟩
          · intro hall
            obtain ⟨hone, hlt⟩ := hall a rfl n hn
            have heq := hfix.mpr hlt
            show 1 ≤ castInt 64 n ∧ ∀ b ∈ some a, Written b (castInt 64 n)
            rw [heq]
            refine ⟨hone, ?_⟩
            rintro _ ⟨⟩
            refine ⟨?_, hn⟩
            rintro rfl
            cases hn
            exact absurd hone (by decide)

theorem svcConfigLookup_usable_iff {name : List Char} {arg : Option (List Char)} {s t : Config}
    (h : svcConfigLookup name arg s = .ok (none, t)) :
    ((name = "fd-range".toList → t.socketFdRegion.lo ≤ t.socketFdRegion.hi ∧ ∀ a ∈ arg, a ≠ "none".toList →
          Written (loField a) t.socketFdRegion.lo ∧ Written (hiField a) t.socketFdRegion.hi) ∧
        (name = "jiffy".toList → 1 ≤ t.jiffy ∧ ∀ a ∈ arg, Written a t.jiffy)) ↔
      (name = "fd-range".toList → ∀ a ∈ arg, a ≠ "none".toList → ∀ lo ∈ decimal (loField a),
          ∀ hi ∈ decimal (hiField a), loField a ≠ [] ∧ hiField a ≠ [] ∧ lo ≤ hi ∧ hi < 2 ^ 31) ∧
        (name = "jiffy".toList → ∀ a ∈ arg, ∀ n ∈ decimal a, 1 ≤ n ∧ n < 2 ^ 63) := by
  by_cases hfd : name = "fd-range".toList
  · subst hfd
    have hjiffy : ¬ "fd-range".toList = "jiffy".toList := by decide
    have hset : svcConfigSetFdRange arg s = .ok (none, t) := h
    have hiff := svcConfigSetFdRange_usable_iff hset
    constructor
    · exact fun hall => ⟨fun _ => hiff.mp (hall.1 rfl), fun heq => absurd heq hjiffy⟩
    · exact fun hall => ⟨fun _ => hiff.mpr (hall.1 rfl), fun heq => absurd heq hjiffy⟩
  · by_cases hjiffy : name = "jiffy".toList
    · subst hjiffy
      have hset : svcConfigSetJiffy arg s = .ok (none, t) := h
      have hiff := svcConfigSetJiffy_usable_iff hset
      constructor
      · exact fun hall => ⟨fun heq => absurd heq hfd, fun _ => hiff.mp (hall.2 rfl)⟩
      · exact fun hall => ⟨fun heq => absurd heq hfd, fun _ => hiff.mpr (hall.2 rfl)⟩
    · exact iff_of_true ⟨fun heq => absurd heq hfd, fun heq => absurd heq hjiffy⟩
        ⟨fun heq => absurd heq hfd, fun heq => absurd heq hjiffy⟩

/-- Only an accepted `jiffy` changes the jiffy. -/
theorem svcConfigLookup_jiffy {name : List Char} {arg : Option (List Char)} {s t : Config} {err : Option Errno}
    (h : svcConfigLookup name arg s = .ok (err, t)) : t.jiffy = s.jiffy ∨ name = "jiffy".toList ∧ err = none := by
  have hbounds : ∀ a, (setFdBounds a s).2.jiffy = s.jiffy := by
    intro a
    rw [setFdBounds_eq]
    repeat' split
    all_goals rfl
  unfold svcConfigLookup at h
  split at h
  · cases arg with
    | none => cases h
    | some a =>
        rw [svcConfigSetFdRange] at h
        split at h
        · cases h
          exact Or.inl rfl
        · have hrun := congrArg (fun r => r.2.jiffy) (Except.ok.inj h)
          exact Or.inl (hrun.symm.trans (hbounds a))
  · split at h
    · unfold svcConfigSetMtmode at h
      repeat' split at h
      all_goals
        cases h
        exact Or.inl rfl
    · repeat' split at h
      · cases h
        exact Or.inl rfl
      · cases h
        exact Or.inl rfl
      · rename_i hname
        cases arg with
        | none => cases h
        | some a =>
            rw [svcConfigSetJiffy] at h
            split at h
            · cases h
              exact Or.inl rfl
            · cases h
              exact Or.inr ⟨hname, rfl⟩
      · unfold svcConfigSetTrace at h
        repeat' split at h
        all_goals
          cases h
          exact Or.inl rfl
      all_goals
        cases h
        exact Or.inl rfl

/-- One command after the other, whatever they return. -/
def configStep (s : Config) (cmd : List Char) : Option Config := (svcConfig cmd s).toOption.map Prod.snd

/-- A command fits, unless it is refused. -/
def FitsIfAccepted (s : Config) (cmd : List Char) : Prop := ∀ t, svcConfig cmd s = .ok (none, t) → Fits cmd

theorem configStep_jiffy {s t : Config} {cmd : List Char} (hs : 1 ≤ s.jiffy) (hfits : FitsIfAccepted s cmd)
    (h : configStep s cmd = some t) : 1 ≤ t.jiffy := by
  obtain ⟨⟨err, u⟩, hrun, rfl⟩ := Option.map_eq_some_iff.mp h
  cases hconfig : svcConfig cmd s with
  | error e =>
      rw [hconfig] at hrun
      cases hrun
  | ok r =>
      rw [hconfig] at hrun
      cases hrun
      have hlookup : svcConfigLookup (commandName cmd) (commandArg cmd) s = .ok (err, u) := by
        rw [← svcConfig_eq]
        exact hconfig
      obtain heq | ⟨hname, rfl⟩ := svcConfigLookup_jiffy hlookup
      · show 1 ≤ u.jiffy
        rw [heq]
        exact hs
      · have husable := (svcConfigLookup_usable_iff hlookup).mpr (hfits u hconfig)
        exact (husable.2 hname).1

/-- What an accepted command stores is usable exactly if the command fits; the jiffy that the waits divide by
is positive for as long as every accepted command fits. -/
theorem svcConfig_usable_iff (cmd : List Char) (s : Config) :
    (∀ t, svcConfig cmd s = .ok (none, t) → (Usable cmd t ↔ Fits cmd)) ∧
      (Reached configStep FitsIfAccepted initial s → 1 ≤ s.jiffy) := by
  constructor
  · intro t h
    rw [svcConfig_eq] at h
    exact svcConfigLookup_usable_iff h
  · intro hs
    refine hs.invariant (fun s => 1 ≤ s.jiffy) (by decide) ?_
    intro s cmd t hinv hfits hstep
    exact configStep_jiffy hinv hfits hstep

theorem svcConfig_usable_iff_range :
    Usable "fd-range=64,1023,-".toList initial ∧ (Fits "jiffy=".toList → False) := by
  have hrange : svcConfig "fd-range=64,1023,-".toList initial = .ok (none, initial) := by decide +kernel
  have hjiffy : svcConfig "jiffy=".toList initial = .ok (none, { initial with jiffy := 0 }) := by decide +kernel
  constructor
  · refine ((svcConfig_usable_iff _ _).1 _ hrange).mpr ⟨?_, ?_⟩
    · intro _ arg harg _ lo hlo hi hhi
      have hargv : commandArg "fd-range=64,1023,-".toList = some "64,1023,-".toList := by decide +kernel
      cases hargv.symm.trans harg
      have hlov : decimal (loField "64,1023,-".toList) = some 64 := by decide +kernel
      have hhiv : decimal (hiField "64,1023,-".toList) = some 1023 := by decide +kernel
      cases hlov.symm.trans hlo
      cases hhiv.symm.trans hhi
      decide +kernel
    · intro hname
      exact absurd hname (by decide +kernel)
  · intro hfits
    have hzero := (((svcConfig_usable_iff _ _).1 _ hjiffy).mpr hfits).2 (by decide +kernel)
    exact absurd hzero.1 (by decide)

theorem svcConfig_usable_counterexample :
    ¬ ∀ cmd s t, svcConfig cmd s = .ok (none, t) → Usable cmd t := by
  intro hall
  have hrun : svcConfig "jiffy=0".toList initial = .ok (none, { initial with jiffy := 0 }) := by decide +kernel
  have hone := ((hall _ _ _ hrun).2 (by decide +kernel)).1
  exact absurd hone (by decide)

end RpcMt.SvcConfig
