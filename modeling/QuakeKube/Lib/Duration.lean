/-
# Durations

`time.Duration` counts nanoseconds in an int64. `Duration.String` writes one as
`1h15m30.5s`, `time.ParseDuration` reads such texts back, and
`metav1.Duration` uses the two for JSON. Every duration survives the way
through its text (`parseDuration_text`).

Key definitions: `Duration`, `Duration.text`, `parseDuration`.
Key theorem: `parseDuration_text`.
-/
import QuakeKube.Lib.Text
import QuakeKube.Lib.Float

namespace Go

/-- `time.Duration`. -/
abbrev Duration := Int64

/-! ### Writing -/

/-- `fmtFrac`: the last `prec` digits of `v` after a point, without zeros at the
end, put before `acc`; and what is left of `v`. -/
def fmtFrac : (prec v : ℕ) → (acc : Text) → Text × ℕ
  | 0, v, acc => (if acc = [] then [] else '.' :: acc, v)
  | prec + 1, v, acc =>
    fmtFrac prec (v / 10) (if acc ≠ [] ∨ v % 10 ≠ 0 then Nat.digitChar (v % 10) :: acc else [])

/-- `u` in a unit of `10 ^ prec`. -/
def fmtUnit (u prec : ℕ) (unit : Text) : Text :=
  natText (fmtFrac prec u []).2 ++ (fmtFrac prec u []).1 ++ unit

/-- Whole minutes as hours and minutes; nothing for zero. -/
def fmtMinutes (m : ℕ) : Text :=
  if m = 0 then []
  else (if m / 60 = 0 then [] else natText (m / 60) ++ ['h']) ++ natText (m % 60) ++ ['m']

/-- The text of a duration of `u` nanoseconds. -/
def fmtNanos (u : ℕ) : Text :=
  if u = 0 then ['0', 's']
  else if u < 10 ^ 3 then natText u ++ ['n', 's']
  else if u < 10 ^ 6 then fmtUnit u 3 ['µ', 's']
  else if u < 10 ^ 9 then fmtUnit u 6 ['m', 's']
  else
    let (frac, secs) := fmtFrac 9 u []
    fmtMinutes (secs / 60) ++ natText (secs % 60) ++ frac ++ ['s']

/-- `Duration.String`. -/
def Duration.text (d : Duration) : Text :=
  if d.toInt < 0 then '-' :: fmtNanos d.toInt.natAbs else fmtNanos d.toInt.natAbs

/-! ### Reading -/

/-- `leadingInt`: the digits in front, unless they exceed `2 ^ 63`. -/
def leadingInt (s : Text) : Option (ℕ × Text) :=
  let x := Nat.ofDigitChars 10 (s.takeWhile Char.isDigit) 0
  if x ≤ 2 ^ 63 then some (x, s.dropWhile Char.isDigit) else none

/-- One more digit of a fraction: `x`, the number of digits in it, and whether a
digit did not fit any more. -/
def fractionDigit : ℕ × ℕ × Bool → Char → ℕ × ℕ × Bool
  | (x, k, overflow), c =>
    if overflow ∨ (2 ^ 63 - 1) / 10 < x then (x, k, true)
    else if 2 ^ 63 < x * 10 + (c.toNat - '0'.toNat) then (x, k, true)
    else (x * 10 + (c.toNat - '0'.toNat), k + 1, false)

/-- `leadingFraction`: the digits after a point, and the power of ten that
scales them. -/
def leadingFraction (s : Text) : ℕ × ℕ :=
  let (x, k, _) := (s.takeWhile Char.isDigit).foldl fractionDigit (0, 0, false)
  (x, k)

/-- The nanoseconds in `f / 10 ^ k` units, computed in float64. -/
def fractionNanos (f k unit : ℕ) : ℕ := ⌊float64 (float64 f * float64 (unit / 10 ^ k))⌋₊

/-- `unitMap`. -/
def unitNanos : Text → Option ℕ
  | ['n', 's'] => some 1
  | ['u', 's'] | ['µ', 's'] | ['μ', 's'] => some (10 ^ 3)
  | ['m', 's'] => some (10 ^ 6)
  | ['s'] => some (10 ^ 9)
  | ['m'] => some (60 * 10 ^ 9)
  | ['h'] => some (3600 * 10 ^ 9)
  | _ => none

/-- A number may start with it. -/
def isNumeric (c : Char) : Bool := c = '.' ∨ c.isDigit

/-- A point and the digits after it, if `s` starts with a point; and whether
there was a digit. -/
def parseFraction : Text → (ℕ × ℕ) × Bool × Text
  | '.' :: s => (leadingFraction s, decide (s.takeWhile Char.isDigit ≠ []), s.dropWhile Char.isDigit)
  | s => ((0, 0), false, s)

/-- The nanoseconds in `v` units and a fraction. -/
def groupNanos (v : ℕ) (frac : ℕ × ℕ) (unit : ℕ) : ℕ :=
  v * unit + if 0 < frac.1 then fractionNanos frac.1 frac.2 unit else 0

/-- The unit of a number, and the text after it. -/
def parseUnit (v : ℕ) (frac : ℕ × ℕ) (s : Text) : Option (ℕ × Text) :=
  match unitNanos (s.takeWhile (!isNumeric ·)) with
  | none => none
  | some unit =>
    if v ≤ 2 ^ 63 / unit ∧ groupNanos v frac unit ≤ 2 ^ 63 then
      some (groupNanos v frac unit, s.dropWhile (!isNumeric ·))
    else none

/-- A number with its unit, and the text after it. -/
def parseGroup (s : Text) : Option (ℕ × Text) :=
  if ¬ (∃ c ∈ s.head?, isNumeric c) then none
  else match leadingInt s with
    | none => none
    | some (v, s1) =>
      let (frac, post, s2) := parseFraction s1
      -- a point alone is no number
      if s1.length = s.length ∧ post = false then none else parseUnit v frac s2

/-- The sum of the groups of `s` and of `d`. Every group takes a character, so
`fuel` need not exceed the length of `s`. -/
def parseGroups : (fuel d : ℕ) → Text → Option ℕ
  | _, d, [] => some d
  | 0, _, _ => none
  | fuel + 1, d, s => do
    let (v, s') ← parseGroup s
    -- the sum is a `uint64`
    guard ((d + v) % 2 ^ 64 ≤ 2 ^ 63)
    parseGroups fuel ((d + v) % 2 ^ 64) s'

/-- The sign in front, and the rest. -/
def takeSign : Text → Bool × Text
  | '-' :: s => (true, s)
  | '+' :: s => (false, s)
  | s => (false, s)

/-- `time.ParseDuration`. -/
def parseDuration (s : Text) : Option Duration :=
  let (neg, s) := takeSign s
  if s = ['0'] then some 0
  else if s = [] then none
  else match parseGroups s.length 0 s with
    | none => none
    | some d =>
      if neg then some (Int64.ofInt (-(d : ℤ)))
      else if d ≤ 2 ^ 63 - 1 then some (Int64.ofInt d) else none

/-! ### A fraction and its digits -/

/-- What `fmtFrac` has written after `k` digits stands for `x` units of `10 ^ -k`. -/
structure FracText (acc : Text) (k x : ℕ) : Prop where
  digits : ∀ c ∈ acc, c.isDigit = true
  length : acc.length ≤ k
  value : Nat.ofDigitChars 10 acc 0 * 10 ^ (k - acc.length) = x

theorem FracText.nil (k : ℕ) : FracText [] k 0 :=
  ⟨by simp, by simp, by simp [Nat.ofDigitChars]⟩

theorem FracText.cons {acc : Text} {k x : ℕ} (h : FracText acc k x) {d : ℕ} (hd : d < 10) :
    FracText (Nat.digitChar d :: acc) (k + 1) (d * 10 ^ k + x) := by
  have hl := h.length
  refine ⟨?_, by simpa using hl, ?_⟩
  · intro c hc
    rcases List.mem_cons.mp hc with rfl | hc
    · simp [hd]
    · exact h.digits c hc
  · have hk : 10 ^ acc.length * 10 ^ (k - acc.length) = 10 ^ k := by
      rw [← pow_add, Nat.add_sub_cancel' hl]
    calc Nat.ofDigitChars 10 (Nat.digitChar d :: acc) 0 * 10 ^ (k + 1 - (Nat.digitChar d :: acc).length)
        = (10 ^ acc.length * d + Nat.ofDigitChars 10 acc 0) * 10 ^ (k - acc.length) := by
          rw [Nat.ofDigitChars_cons_digitChar_of_lt_ten hd, Nat.ofDigitChars_eq_ofDigitChars_zero,
            List.length_cons, Nat.add_sub_add_right, Nat.mul_zero, Nat.zero_add]
      _ = d * (10 ^ acc.length * 10 ^ (k - acc.length)) +
            Nat.ofDigitChars 10 acc 0 * 10 ^ (k - acc.length) := by ring
      _ = d * 10 ^ k + x := by rw [hk, h.value]

theorem fmtFrac_spec (prec v : ℕ) {acc : Text} {k x : ℕ} (h : FracText acc k x) :
    ∃ ds, FracText ds (k + prec) (v % 10 ^ prec * 10 ^ k + x) ∧
      fmtFrac prec v acc = (if ds = [] then [] else '.' :: ds, v / 10 ^ prec) := by
  induction prec generalizing v acc k x with
  | zero => exact ⟨acc, by simpa [Nat.mod_one] using h, by simp [fmtFrac]⟩
  | succ prec ih =>
    have hsplit : v % 10 ^ (prec + 1) * 10 ^ k + x =
        v / 10 % 10 ^ prec * 10 ^ (k + 1) + (v % 10 * 10 ^ k + x) := by
      rw [pow_succ 10 prec, Nat.mul_comm (10 ^ prec), Nat.mod_mul, pow_succ 10 k]
      ring
    rw [hsplit, show k + (prec + 1) = k + 1 + prec by omega, pow_succ 10 prec,
      Nat.mul_comm (10 ^ prec), ← Nat.div_div_eq_div_mul, fmtFrac]
    split
    · exact ih (v / 10) (h.cons (Nat.mod_lt _ (by omega)))
    · rename_i hz
      obtain ⟨rfl, hv⟩ : acc = [] ∧ v % 10 = 0 := by simpa [not_or] using hz
      have hx : x = 0 := by simpa [Nat.ofDigitChars] using h.value.symm
      subst hx
      rw [hv]
      simpa using ih (v / 10) (FracText.nil (k + 1))

theorem digit_le {c : Char} (h : c.isDigit = true) : c.toNat - '0'.toNat ≤ 9 := by
  simp only [Char.isDigit, Bool.and_eq_true, decide_eq_true_eq, UInt32.le_iff_toNat_le] at h
  have h2 : c.toNat ≤ 57 := h.2
  simp only [Char.reduceToNat]
  omega

theorem foldl_fractionDigit {ds : Text} (hd : ∀ c ∈ ds, c.isDigit = true) {x k : ℕ} (hx : x < 10 ^ k)
    (hl : k + ds.length ≤ 9) :
    ds.foldl fractionDigit (x, k, false) = (Nat.ofDigitChars 10 ds x, k + ds.length, false) ∧
      Nat.ofDigitChars 10 ds x < 10 ^ (k + ds.length) := by
  induction ds generalizing x k with
  | nil => exact ⟨by simp [Nat.ofDigitChars], by simpa [Nat.ofDigitChars] using hx⟩
  | cons c ds ih =>
    have hc := digit_le (hd c List.mem_cons_self)
    have hk : 10 ^ k ≤ 10 ^ 9 := Nat.pow_le_pow_right (by omega) (by omega)
    have hstep : fractionDigit (x, k, false) c = (10 * x + (c.toNat - '0'.toNat), k + 1, false) := by
      rw [fractionDigit, if_neg (by simp; omega), if_neg (by omega), Nat.mul_comm]
    have hx' : 10 * x + (c.toNat - '0'.toNat) < 10 ^ (k + 1) := by rw [pow_succ]; omega
    have hlen : k + 1 + ds.length = k + (c :: ds).length := by simp; omega
    rw [List.foldl_cons, hstep, Nat.ofDigitChars_cons, ← hlen]
    exact ih (fun d hd' => hd d (List.mem_cons_of_mem _ hd')) hx' (by omega)

/-- A short fraction is read exactly. -/
theorem leadingFraction_of_digits {ds rest : Text} (hd : ∀ c ∈ ds, c.isDigit = true)
    (hl : ds.length ≤ 9) (hr : ∀ c ∈ rest.head?, c.isDigit = false) :
    leadingFraction (ds ++ rest) = (Nat.ofDigitChars 10 ds 0, ds.length) := by
  rw [leadingFraction, takeWhile_append_stop hd hr, (foldl_fractionDigit hd (by simp) (by omega)).1]
  simp

/-- With at most nine digits float64 is exact. -/
theorem fractionNanos_eq {f k m : ℕ} (hf : f < 10 ^ k) (hk : k ≤ m) (hm : m ≤ 9) :
    fractionNanos f k (10 ^ m) = f * 10 ^ (m - k) := by
  have hm9 : 10 ^ m ≤ 10 ^ 9 := Nat.pow_le_pow_right (by omega) hm
  have hsplit : 10 ^ k * 10 ^ (m - k) = 10 ^ m := by rw [← pow_add, Nat.add_sub_cancel' hk]
  have hpos : 0 < 10 ^ (m - k) := Nat.pos_of_ne_zero (by positivity)
  have hprod : f * 10 ^ (m - k) < 10 ^ m := by
    rw [← hsplit]
    exact Nat.mul_lt_mul_of_pos_right hf hpos
  have hunit : ((10 ^ m : ℕ) : ℚ) / 10 ^ k = ((10 ^ (m - k) : ℕ) : ℚ) := by
    rw [← hsplit]
    push_cast
    field_simp
  have h1 : 10 ^ (m - k) ≤ 10 ^ m := Nat.pow_le_pow_right (by omega) (by omega)
  have h2 : 10 ^ k ≤ 10 ^ m := Nat.pow_le_pow_right (by omega) hk
  calc fractionNanos f k (10 ^ m) = ⌊float64 (float64 f * float64 ((10 ^ (m - k) : ℕ) : ℚ))⌋₊ := by
        rw [fractionNanos, hunit]
    _ = ⌊float64 ((f * 10 ^ (m - k) : ℕ) : ℚ)⌋₊ := by
        rw [float64_natCast (by omega), float64_natCast (by omega), Nat.cast_mul]
    _ = f * 10 ^ (m - k) := by rw [float64_natCast (by omega), Nat.floor_natCast]

/-! ### One group -/

/-- What can follow a group: nothing, or the next number. -/
def Stops (rest : Text) : Prop := ∀ c ∈ rest.head?, isNumeric c = true

theorem isDigit_of_isNumeric {c : Char} (h : isNumeric c = false) : c.isDigit = false ∧ c ≠ '.' := by
  simp only [isNumeric, decide_eq_false_iff_not, not_or] at h
  exact ⟨by simpa using h.2, h.1⟩

theorem leadingInt_natText {v : ℕ} {t : Text} (hv : v ≤ 2 ^ 63) (ht : ∀ c ∈ t.head?, c.isDigit = false) :
    leadingInt (natText v ++ t) = some (v, t) := by
  have hd : ∀ c ∈ natText v, c.isDigit = true := fun c => isDigit_of_mem_natText
  rw [leadingInt, takeWhile_append_stop hd ht, dropWhile_append_stop hd ht, natText,
    Nat.ofDigitChars_ten_toDigits]
  exact if_pos hv

theorem parseUnit_append {v unit : ℕ} {frac : ℕ × ℕ} {u rest : Text} (hu : ∀ c ∈ u, isNumeric c = false)
    (hunit : unitNanos u = some unit) (hr : Stops rest) (hv : v ≤ 2 ^ 63 / unit)
    (hw : groupNanos v frac unit ≤ 2 ^ 63) :
    parseUnit v frac (u ++ rest) = some (groupNanos v frac unit, rest) := by
  have hu' : ∀ c ∈ u, (!isNumeric c) = true := fun c hc => by simp [hu c hc]
  have hr' : ∀ c ∈ rest.head?, (!isNumeric c) = false := fun c hc => by simp [hr c hc]
  rw [parseUnit, takeWhile_append_stop hu' hr', dropWhile_append_stop hu' hr', hunit]
  exact if_pos ⟨hv, hw⟩

theorem parseFraction_append {ds t : Text} (hd : ∀ c ∈ ds, c.isDigit = true) (hl : ds.length ≤ 9)
    (ht : ∀ c ∈ t.head?, isNumeric c = false) :
    ∃ b, parseFraction ((if ds = [] then [] else '.' :: ds) ++ t) =
      ((Nat.ofDigitChars 10 ds 0, ds.length), b, t) := by
  have ht' : ∀ c ∈ t.head?, c.isDigit = false := fun c hc => (isDigit_of_isNumeric (ht c hc)).1
  split
  · rename_i h
    subst h
    refine ⟨false, ?_⟩
    unfold parseFraction
    split
    · rename_i s hs
      obtain rfl : t = '.' :: s := hs
      exact absurd rfl (isDigit_of_isNumeric (ht '.' rfl)).2
    · simp
  · exact ⟨_, by rw [List.cons_append, parseFraction, leadingFraction_of_digits hd hl ht',
      dropWhile_append_stop hd ht']⟩

/-- A number written by `natText` and `fmtFrac` is read back with its unit. -/
theorem parseGroup_append {v unit : ℕ} {ds u rest : Text} (hd : ∀ c ∈ ds, c.isDigit = true)
    (hl : ds.length ≤ 9) (hu : ∀ c ∈ u, isNumeric c = false) (hunit : unitNanos u = some unit)
    (hr : Stops rest) (hv : v ≤ 2 ^ 63 / unit)
    (hw : groupNanos v (Nat.ofDigitChars 10 ds 0, ds.length) unit ≤ 2 ^ 63) :
    parseGroup (natText v ++ ((if ds = [] then [] else '.' :: ds) ++ (u ++ rest))) =
      some (groupNanos v (Nat.ofDigitChars 10 ds 0, ds.length) unit, rest) := by
  have hne : u ≠ [] := fun h => by simp [h, unitNanos] at hunit
  have htail : ∀ c ∈ (u ++ rest).head?, isNumeric c = false := by
    intro c hc
    rw [List.head?_append_of_ne_nil _ hne] at hc
    exact hu c (List.mem_of_mem_head? hc)
  have hstop : ∀ c ∈ ((if ds = [] then [] else '.' :: ds) ++ (u ++ rest)).head?, c.isDigit = false := by
    intro c hc
    split at hc
    · exact (isDigit_of_isNumeric (htail c hc)).1
    · obtain rfl : '.' = c := by simpa using hc
      decide
  obtain ⟨d, n, hn⟩ := List.exists_cons_of_ne_nil (natText_ne_nil v)
  have hdig : d.isDigit = true := isDigit_of_mem_natText (n := v) (by simp [hn])
  obtain ⟨b, hfrac⟩ := parseFraction_append hd hl htail
  rw [parseGroup, if_neg (by simp [hn, isNumeric, hdig]),
    leadingInt_natText (hv.trans (Nat.div_le_self _ _)) hstop]
  simp only [hfrac]
  rw [if_neg (by simp [hn]; omega)]
  exact parseUnit_append hu hunit hr hv hw

/-! ### The whole text -/

theorem parseGroups_mono {n m d r : ℕ} {s : Text} (h : parseGroups n d s = some r) (hm : n ≤ m) :
    parseGroups m d s = some r := by
  induction n generalizing m d s with
  | zero =>
    cases s with
    | nil => cases m <;> exact h
    | cons c s => simp [parseGroups] at h
  | succ n ih =>
    obtain ⟨m, rfl⟩ : ∃ m', m = m' + 1 := ⟨m - 1, by omega⟩
    cases s with
    | nil => exact h
    | cons c s =>
      simp only [parseGroups, Option.bind_eq_bind, Option.bind_eq_some_iff] at h ⊢
      obtain ⟨⟨v, s'⟩, hg, u, hu, hr⟩ := h
      exact ⟨⟨v, s'⟩, hg, u, hu, ih hr (by omega)⟩

/-- One group more in front. -/
theorem parseGroups_append {n d v unit : ℕ} {ds u rest : Text} {r : ℕ}
    (hd : ∀ c ∈ ds, c.isDigit = true) (hl : ds.length ≤ 9) (hu : ∀ c ∈ u, isNumeric c = false)
    (hunit : unitNanos u = some unit) (hr : Stops rest) (hv : v ≤ 2 ^ 63 / unit)
    (hw : d + groupNanos v (Nat.ofDigitChars 10 ds 0, ds.length) unit ≤ 2 ^ 63)
    (h : parseGroups n (d + groupNanos v (Nat.ofDigitChars 10 ds 0, ds.length) unit) rest = some r) :
    parseGroups (n + 1) d (natText v ++ ((if ds = [] then [] else '.' :: ds) ++ (u ++ rest))) = some r := by
  have hg := parseGroup_append hd hl hu hunit hr hv (by omega)
  obtain ⟨c, t, hc⟩ := List.exists_cons_of_ne_nil (natText_ne_nil v)
  have hmod : (d + groupNanos v (Nat.ofDigitChars 10 ds 0, ds.length) unit) % 2 ^ 64 =
      d + groupNanos v (Nat.ofDigitChars 10 ds 0, ds.length) unit := Nat.mod_eq_of_lt (by omega)
  rw [hc] at hg ⊢
  simp only [List.cons_append, parseGroups] at hg ⊢
  simp only [hg, Option.bind_eq_bind, Option.bind_some, hmod, guard, if_pos hw]
  exact h

/-- A group without a fraction. -/
theorem parseGroups_whole {n d v unit : ℕ} {u rest : Text} {r : ℕ} (hu : ∀ c ∈ u, isNumeric c = false)
    (hunit : unitNanos u = some unit) (hr : Stops rest) (hv : v ≤ 2 ^ 63 / unit)
    (hw : d + v * unit ≤ 2 ^ 63) (h : parseGroups n (d + v * unit) rest = some r) :
    parseGroups (n + 1) d (natText v ++ (u ++ rest)) = some r := by
  have hg : groupNanos v (Nat.ofDigitChars 10 [] 0, ([] : Text).length) unit = v * unit := by
    simp [groupNanos]
  have hd : ∀ c ∈ ([] : Text), c.isDigit = true := by simp
  exact parseGroups_append hd (by simp) hu hunit hr hv (hg ▸ hw) (hg ▸ h)

/-- A fraction written with `prec` digits is read as the same nanoseconds. -/
theorem groupNanos_of_fracText {ds : Text} {prec x v : ℕ} (h : FracText ds prec x) (hp : prec ≤ 9) :
    groupNanos v (Nat.ofDigitChars 10 ds 0, ds.length) (10 ^ prec) = v * 10 ^ prec + x := by
  have hlt : Nat.ofDigitChars 10 ds 0 < 10 ^ ds.length := by
    simpa using (foldl_fractionDigit h.digits (x := 0) (k := 0) (by simp) (by have := h.length; omega)).2
  rw [groupNanos, fractionNanos_eq hlt h.length hp, h.value]
  split
  · rfl
  · rename_i h0
    have : Nat.ofDigitChars 10 ds 0 = 0 := by simpa using h0
    have hx := h.value
    rw [this, Nat.zero_mul] at hx
    rw [← hx]

theorem stops_natText (n : ℕ) (t : Text) : Stops (natText n ++ t) := by
  obtain ⟨c, s, h⟩ := List.exists_cons_of_ne_nil (natText_ne_nil n)
  intro d hd
  have hdig : c.isDigit = true := isDigit_of_mem_natText (n := n) (by simp [h])
  obtain rfl : c = d := by simpa [h] using hd
  simp [isNumeric, hdig]

/-- One group, all of the text. -/
theorem parseGroups_unit {d u prec : ℕ} {unit : Text} (hp : prec ≤ 9)
    (hunit : unitNanos unit = some (10 ^ prec)) (hu : ∀ c ∈ unit, isNumeric c = false)
    (hd : d + u ≤ 2 ^ 63) : parseGroups 1 d (fmtUnit u prec unit) = some (d + u) := by
  obtain ⟨ds, hds, hf⟩ := fmtFrac_spec prec u (FracText.nil 0)
  have hds : FracText ds prec (u % 10 ^ prec) := by simpa using hds
  have hg : groupNanos (u / 10 ^ prec) (Nat.ofDigitChars 10 ds 0, ds.length) (10 ^ prec) = u := by
    rw [groupNanos_of_fracText hds hp, Nat.div_add_mod']
  have hl := hds.length
  have hstop : Stops [] := by simp [Stops]
  have hgroups : parseGroups (0 + 1) d (natText (u / 10 ^ prec) ++
      ((if ds = [] then [] else '.' :: ds) ++ (unit ++ []))) = some (d + u) :=
    parseGroups_append hds.digits (by omega) hu hunit hstop (Nat.div_le_div_right (by omega))
      (by omega) (by rw [hg]; rfl)
  simpa [fmtUnit, hf] using hgroups

theorem one_le_length_fmtUnit (u prec : ℕ) {unit : Text} (h : unit ≠ []) :
    1 ≤ (fmtUnit u prec unit).length := by
  have := List.length_pos_of_ne_nil h
  simp [fmtUnit]
  omega

/-- The groups of the minutes come before those of `rest`. -/
theorem parseGroups_fmtMinutes {n m r : ℕ} {rest : Text} (hm : m * (60 * 10 ^ 9) ≤ 2 ^ 63)
    (hr : Stops rest) (h : parseGroups n (m * (60 * 10 ^ 9)) rest = some r) :
    ∃ k, k ≤ n + (fmtMinutes m).length ∧ parseGroups k 0 (fmtMinutes m ++ rest) = some r := by
  have hmin : ∀ d : ℕ, d + m % 60 * (60 * 10 ^ 9) = m * (60 * 10 ^ 9) →
      parseGroups (n + 1) d (natText (m % 60) ++ (['m'] ++ rest)) = some r := by
    intro d hd
    exact parseGroups_whole (u := ['m']) (by decide) rfl hr (by omega) (by rwa [hd]) (by rwa [hd])
  have hpos : ∀ k : ℕ, 1 ≤ (natText k).length := fun k =>
    List.length_pos_of_ne_nil (natText_ne_nil k)
  by_cases h0 : m = 0
  · subst h0
    rw [Nat.zero_mul] at h
    exact ⟨n, Nat.le_add_right _ _, by rwa [fmtMinutes, if_pos rfl, List.nil_append]⟩
  · by_cases h1 : m / 60 = 0
    · refine ⟨n + 1, ?_, ?_⟩
      · simp [fmtMinutes, h0, h1]
      · simpa only [fmtMinutes, if_neg h0, if_pos h1, List.nil_append, List.append_assoc]
          using hmin 0 (by omega)
    · have hhour := parseGroups_whole (d := 0) (v := m / 60) (u := ['h']) (by decide) rfl
        (stops_natText (m % 60) (['m'] ++ rest)) (by omega) (by omega)
        (hmin (0 + m / 60 * (3600 * 10 ^ 9)) (by omega))
      refine ⟨n + 1 + 1, ?_, ?_⟩
      · simp [fmtMinutes, h0, h1]
        omega
      · simpa only [fmtMinutes, if_neg h0, if_neg h1, List.append_assoc] using hhour

theorem parseGroups_fmtNanos {u : ℕ} (hu : u ≤ 2 ^ 63) :
    ∃ n, n ≤ (fmtNanos u).length ∧ parseGroups n 0 (fmtNanos u) = some u := by
  have hone : ∀ {prec : ℕ} {unit : Text}, prec ≤ 9 → unitNanos unit = some (10 ^ prec) →
      (∀ c ∈ unit, isNumeric c = false) → unit ≠ [] →
      ∃ n, n ≤ (fmtUnit u prec unit).length ∧ parseGroups n 0 (fmtUnit u prec unit) = some u := by
    intro prec unit hp h1 h2 h3
    have := parseGroups_unit (d := 0) (u := u) hp h1 h2 (by omega)
    exact ⟨1, one_le_length_fmtUnit u prec h3, by rwa [Nat.zero_add] at this⟩
  unfold fmtNanos
  split
  · rename_i h
    subst h
    exact ⟨1, by decide, by decide⟩
  split
  · have hns : ∃ n, n ≤ (fmtUnit u 0 ['n', 's']).length ∧
        parseGroups n 0 (fmtUnit u 0 ['n', 's']) = some u := hone (by omega) rfl (by decide) (by simp)
    simpa [fmtUnit, fmtFrac] using hns
  split
  · exact hone (by omega) rfl (by decide) (by simp)
  split
  · exact hone (by omega) rfl (by decide) (by simp)
  obtain ⟨ds, hds, hf⟩ := fmtFrac_spec 9 u (FracText.nil 0)
  have hds : FracText ds 9 (u % 10 ^ 9) := by simpa using hds
  simp only [hf]
  -- the seconds, with the fraction, after the minutes
  have hg : groupNanos (u / 10 ^ 9 % 60) (Nat.ofDigitChars 10 ds 0, ds.length) (10 ^ 9) =
      u / 10 ^ 9 % 60 * 10 ^ 9 + u % 10 ^ 9 := groupNanos_of_fracText hds (by omega)
  have hsum : u / 10 ^ 9 / 60 * (60 * 10 ^ 9) + (u / 10 ^ 9 % 60 * 10 ^ 9 + u % 10 ^ 9) = u := by omega
  have hstop : Stops [] := by simp [Stops]
  have hsec : parseGroups (0 + 1) (u / 10 ^ 9 / 60 * (60 * 10 ^ 9)) (natText (u / 10 ^ 9 % 60) ++
      ((if ds = [] then [] else '.' :: ds) ++ (['s'] ++ []))) = some u :=
    parseGroups_append hds.digits hds.length (by decide) rfl hstop (by omega)
      (by rw [hg, hsum]; exact hu) (by rw [hg, hsum]; rfl)
  obtain ⟨k, hk, hr⟩ := parseGroups_fmtMinutes (by omega) (stops_natText _ _) hsec
  have hpos : 1 ≤ (natText (u / 10 ^ 9 % 60)).length := List.length_pos_of_ne_nil (natText_ne_nil _)
  refine ⟨k, ?_, by simpa using hr⟩
  simp only [List.length_append]
  omega

/-- The text starts with a digit, and a unit follows. -/
theorem fmtNanos_cons (u : ℕ) : ∃ c s, fmtNanos u = c :: s ∧ c.isDigit = true ∧ s ≠ [] := by
  have hnat : ∀ (n : ℕ) {t : Text}, t ≠ [] →
      ∃ c s, natText n ++ t = c :: s ∧ c.isDigit = true ∧ s ≠ [] := by
    intro n t ht
    obtain ⟨c, s, h⟩ := List.exists_cons_of_ne_nil (natText_ne_nil n)
    exact ⟨c, s ++ t, by rw [h]; rfl, isDigit_of_mem_natText (n := n) (by simp [h]), by simp [ht]⟩
  have hunit : ∀ (prec : ℕ) {unit : Text}, unit ≠ [] →
      ∃ c s, fmtUnit u prec unit = c :: s ∧ c.isDigit = true ∧ s ≠ [] := by
    intro prec unit h
    rw [fmtUnit, List.append_assoc]
    exact hnat _ (by simp [h])
  unfold fmtNanos
  split
  · exact ⟨'0', ['s'], rfl, by decide, by simp⟩
  split
  · exact hnat u (by simp)
  split
  · exact hunit 3 (by simp)
  split
  · exact hunit 6 (by simp)
  simp only [fmtMinutes]
  split
  · simpa only [List.nil_append, List.append_assoc] using hnat _ (by simp)
  · split
    · simpa only [List.nil_append, List.append_assoc] using hnat _ (by simp)
    · simpa only [List.append_assoc] using hnat _ (by simp)

/-- **A duration is read back from its text.** -/
theorem parseDuration_text (d : Duration) : parseDuration d.text = some d := by
  have hlo := d.le_toInt
  have hhi := d.toInt_lt
  have hu : d.toInt.natAbs ≤ 2 ^ 63 := by omega
  obtain ⟨n, hn, hr⟩ := parseGroups_fmtNanos hu
  have hr := parseGroups_mono hr hn
  obtain ⟨c, s, hc, hdig, hs⟩ := fmtNanos_cons d.toInt.natAbs
  have hne : fmtNanos d.toInt.natAbs ≠ ['0'] := by simp [hc, hs]
  have hnil : fmtNanos d.toInt.natAbs ≠ [] := by simp [hc]
  have hof : ∀ z : ℤ, z = d.toInt → Int64.ofInt z = d := fun z hz => by rw [hz, Int64.ofInt_toInt]
  unfold Duration.text
  split
  · simp only [parseDuration, takeSign, if_neg hne, if_neg hnil, hr, if_true]
    rw [hof _ (by omega)]
  · have hsign : takeSign (fmtNanos d.toInt.natAbs) = (false, fmtNanos d.toInt.natAbs) := by
      unfold takeSign
      split
      · rename_i h
        exact absurd (List.cons.inj (hc.symm.trans h)).1 (ne_of_test hdig rfl)
      · rename_i h
        exact absurd (List.cons.inj (hc.symm.trans h)).1 (ne_of_test hdig rfl)
      · rfl
    simp only [parseDuration, hsign, if_neg hne, if_neg hnil, hr, Bool.false_eq_true, if_false]
    rw [if_pos (by omega), hof _ (by omega)]

/-! ### The characters of a duration -/

/-- What a duration is written with, past digits and the sign. -/
def unitChars : List Char := ['.', 'h', 'm', 's', 'n', 'µ']

theorem fmtFrac_chars (prec v : ℕ) : ∃ frac, (∀ c ∈ frac, c.isDigit = true ∨ c ∈ unitChars) ∧
    fmtFrac prec v [] = (frac, v / 10 ^ prec) := by
  obtain ⟨ds, hds, he⟩ := fmtFrac_spec prec v (FracText.nil 0)
  refine ⟨_, ?_, he⟩
  intro c h
  by_cases hn : ds = []
  · simp [hn] at h
  · rw [if_neg hn, List.mem_cons] at h
    rcases h with rfl | h
    · exact .inr (by decide)
    · exact .inl (hds.digits c h)

theorem mem_fmtNanos {u : ℕ} {c : Char} (h : c ∈ fmtNanos u) : c.isDigit = true ∨ c ∈ unitChars := by
  have hnat : ∀ {n : ℕ}, c ∈ natText n → c.isDigit = true ∨ c ∈ unitChars :=
    fun h => .inl (isDigit_of_mem_natText h)
  have hunit : ∀ {prec : ℕ} {unit : Text}, (∀ d ∈ unit, d ∈ unitChars) → c ∈ fmtUnit u prec unit →
      c.isDigit = true ∨ c ∈ unitChars := by
    intro prec unit hu h
    rw [fmtUnit, List.mem_append, List.mem_append] at h
    rcases h with (h | h) | h
    · exact hnat h
    · obtain ⟨frac, hf, he⟩ := fmtFrac_chars prec u
      rw [he] at h
      exact hf c h
    · exact .inr (hu c h)
  have hmin : ∀ {m : ℕ}, c ∈ fmtMinutes m → c.isDigit = true ∨ c ∈ unitChars := by
    intro m h
    unfold fmtMinutes at h
    split_ifs at h
    · simp at h
    · rcases List.mem_append.mp h with h | h
      · exact hnat (by simpa using h)
      · exact .inr (by rw [List.mem_singleton.mp h]; decide)
    · rcases List.mem_append.mp h with h | h
      · rcases List.mem_append.mp h with h | h
        · rcases List.mem_append.mp h with h | h
          · exact hnat h
          · exact .inr (by rw [List.mem_singleton.mp h]; decide)
        · exact hnat h
      · exact .inr (by rw [List.mem_singleton.mp h]; decide)
  obtain ⟨frac, hf, he⟩ := fmtFrac_chars 9 u
  unfold fmtNanos at h
  rw [he] at h
  split_ifs at h
  · rcases List.mem_pair.mp h with rfl | rfl
    · exact .inl (by decide)
    · exact .inr (by decide)
  · rcases List.mem_append.mp h with h | h
    · exact hnat h
    · rcases List.mem_pair.mp h with rfl | rfl <;> exact .inr (by decide)
  · exact hunit (by decide) h
  · exact hunit (by decide) h
  · rcases List.mem_append.mp h with h | h
    · rcases List.mem_append.mp h with h | h
      · rcases List.mem_append.mp h with h | h
        · exact hmin h
        · exact hnat h
      · exact hf c h
    · exact .inr (by rw [List.mem_singleton.mp h]; decide)

theorem s_mem_fmtNanos (u : ℕ) : 's' ∈ fmtNanos u := by
  unfold fmtNanos
  split_ifs <;> simp [fmtUnit]

/-- The text of a duration is a digit, perhaps after a minus, and digits and
units, a second among them. -/
theorem Duration.text_shape (d : Duration) : ∃ c s, c.isDigit = true ∧
    (d.text = c :: s ∨ d.text = '-' :: c :: s) ∧
    (∀ e ∈ c :: s, e.isDigit = true ∨ e ∈ unitChars) ∧ 's' ∈ d.text := by
  obtain ⟨c, s, hc, hdig, -⟩ := fmtNanos_cons d.toInt.natAbs
  have hchars : ∀ e ∈ c :: s, e.isDigit = true ∨ e ∈ unitChars := by
    rw [← hc]
    exact fun e he => mem_fmtNanos he
  have hs := s_mem_fmtNanos d.toInt.natAbs
  refine ⟨c, s, hdig, ?_, hchars, ?_⟩
  · unfold Duration.text
    split_ifs
    · exact .inr (by rw [hc])
    · exact .inl hc
  · unfold Duration.text
    split_ifs
    · exact List.mem_cons_of_mem _ hs
    · exact hs

end Go
