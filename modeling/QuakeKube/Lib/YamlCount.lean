/-
# How much text the values under a key take

Each value that a document has under a key `k` was written somewhere in the text,
and the characters of a scalar are no more than the characters it was read from.
So a text put where a scalar is expected, whatever is in it, is worth no more
than it has room for, and worth exactly its own characters only when it is a
plain scalar on one line (`weight_itemField`). The values of a list's items are
among those under the key, in their order (`values_sublist`).

Key definitions: `PlainScalar`, `valuesAfter`, `weight`, `Quiet`.
Key theorems: `plainScalar_iff`, `lexLine_weight`, `weight_itemField`, `values_sublist`.
-/
import Mathlib.Algebra.Order.BigOperators.Group.List
import QuakeKube.Lib.YamlWriter

namespace Yaml

open Go

/-! ### Plain scalars -/

/-- A plain scalar on one line, by its characters: all of them allowed, none of
the indicators at its beginning, no blank at its ends, no colon before a blank or
the end, and no hash after a blank. -/
structure PlainScalar (t : Text) : Prop where
  allowed : t.all Yaml.allowed = true
  start : plainStart t = true
  last : ∀ c ∈ t.getLast?, isBlank c = false
  colon : ∀ a b, t = a ++ ':' :: b → atBlank b = false
  hash : ∀ a c b, t = a ++ c :: '#' :: b → isBlank c = false

theorem plainRun_append_self (s : Text) : (plainRun s).1 ++ (plainRun s).2 = s := by
  induction s with
  | nil => rfl
  | cons c s ih =>
    rw [plainRun]
    split_ifs
    · rfl
    · rw [List.cons_append, ih]

/-- A plain scalar runs to the end where no colon and no hash stops it. -/
theorem plainRun_eq_self_iff {t : Text} : plainRun t = (t, []) ↔
    (∀ a b, t = a ++ ':' :: b → atBlank b = false) ∧ ∀ a c b, t = a ++ c :: '#' :: b → isBlank c = false := by
  induction t with
  | nil => simp [plainRun]
  | cons d t ih =>
    rw [plainRun]
    by_cases hstop : (d = ':' ∧ atBlank t = true) ∨ (isBlank d = true ∧ t.head? = some '#')
    · rw [if_pos hstop]
      constructor
      · intro h
        exact absurd (congrArg Prod.fst h) (by simp)
      · rintro ⟨hcolon, hhash⟩
        rcases hstop with ⟨rfl, hb⟩ | ⟨hb, hh⟩
        · have h := hcolon [] t rfl
          rw [hb] at h
          cases h
        · obtain ⟨u, rfl⟩ : ∃ u, t = '#' :: u := by
            cases t with
            | nil => cases hh
            | cons e u => exact ⟨u, by rw [Option.some.inj hh]⟩
          have h := hhash [] d u rfl
          rw [hb] at h
          cases h
    · rw [if_neg hstop]
      obtain ⟨hnc, hnh⟩ := not_or.mp hstop
      have hrec : (d :: (plainRun t).1, (plainRun t).2) = (d :: t, []) ↔ plainRun t = (t, []) := by
        simp [Prod.ext_iff]
      rw [hrec, ih]
      constructor
      · rintro ⟨hcolon, hhash⟩
        refine ⟨fun a b h => ?_, fun a c b h => ?_⟩
        · cases a with
          | nil =>
            obtain ⟨rfl, rfl⟩ := List.cons.inj h
            simpa using hnc
          | cons e a => exact hcolon a b (List.cons.inj h).2
        · cases a with
          | nil =>
            obtain ⟨rfl, rfl⟩ := List.cons.inj h
            simpa using hnh
          | cons e a => exact hhash a c b (List.cons.inj h).2
      · rintro ⟨hcolon, hhash⟩
        exact ⟨fun a b h => hcolon (d :: a) b (by rw [h]; rfl),
          fun a c b h => hhash (d :: a) c b (by rw [h]; rfl)⟩

/-- No plain scalar begins with a blank, a hash or a quote. -/
theorem plainStart_head {t : Text} (h : plainStart t = true) :
    ∃ c s, t = c :: s ∧ isBlank c = false ∧ c ≠ '#' ∧ c ≠ '"' := by
  cases t with
  | nil => cases h
  | cons c s =>
    simp only [plainStart, Bool.or_eq_true, Bool.and_eq_true, decide_eq_true_eq, Bool.not_eq_true'] at h
    rcases h with ⟨hb, hi⟩ | ⟨hd, -⟩
    · refine ⟨c, s, rfl, hb, ?_, ?_⟩
      · rintro rfl
        exact hi (by decide)
      · rintro rfl
        exact hi (by decide)
    · have hall : ∀ c ∈ ['-', '?', ':'], isBlank c = false ∧ c ≠ '#' ∧ c ≠ '"' := by decide
      obtain ⟨h1, h2, h3⟩ := hall c hd
      exact ⟨c, s, rfl, h1, h2, h3⟩

theorem lexScalar_plain {t : Text} (hs : plainStart t = true) :
    lexScalar t = some (.plain ((plainRun t).1.rdropWhile isBlank), (plainRun t).2) := by
  obtain ⟨c, s, rfl, -, -, hq⟩ := plainStart_head hs
  unfold lexScalar
  split
  · rename_i heq
    exact absurd (List.cons.inj heq).1 hq
  · rw [if_pos hs]

theorem rdropWhile_blank_iff {t : Text} :
    t.rdropWhile isBlank = t ↔ ∀ c ∈ t.getLast?, isBlank c = false := by
  rw [List.rdropWhile_eq_self_iff]
  constructor
  · intro h c hc
    obtain ⟨hne, rfl⟩ := List.mem_getLast?_eq_getLast hc
    simpa using h hne
  · intro h hne
    simpa using h _ (List.getLast_mem_getLast? hne)

/-- A text that is scanned to its end as the plain scalar it is. -/
theorem plainScalar_of_lex {t : Text} (ha : t.all Yaml.allowed = true)
    (hl : lexScalar t = some (.plain t, [])) : PlainScalar t := by
  have hstart : plainStart t = true := by
    unfold lexScalar at hl
    split at hl
    · obtain ⟨⟨u, r⟩, -, he⟩ := Option.map_eq_some_iff.mp hl
      cases (Prod.mk.inj he).1
    · split_ifs at hl with hs
      exact hs
  rw [lexScalar_plain hstart] at hl
  obtain ⟨h1, h2⟩ := Prod.mk.inj (Option.some.inj hl)
  have hrun : plainRun t = (t, []) := by
    have happ := plainRun_append_self t
    rw [h2, List.append_nil] at happ
    exact Prod.ext happ h2
  rw [hrun, Scalar.plain.injEq] at h1
  obtain ⟨hc, hh⟩ := plainRun_eq_self_iff.mp hrun
  exact ⟨ha, hstart, rdropWhile_blank_iff.mp h1, hc, hh⟩

/-- **A text stands for itself as a plain scalar if and only if it is one by its
characters.** -/
theorem plainScalar_iff {t : Text} : PlainScalar t ↔ Reads t (.plain t) := by
  constructor
  · intro h
    have hrun := plainRun_eq_self_iff.mpr ⟨h.colon, h.hash⟩
    obtain ⟨c, s, heq, hb, hh, -⟩ := plainStart_head h.start
    refine ⟨h.allowed, ?_, c, s, heq, hb, hh⟩
    rw [lexScalar_plain h.start, hrun, rdropWhile_blank_iff.mpr h.last]
  · intro h
    exact plainScalar_of_lex h.allowed h.lex

instance (t : Text) : Decidable (PlainScalar t) :=
  decidable_of_iff (t.all Yaml.allowed = true ∧ lexScalar t = some (.plain t, []))
    ⟨fun h => plainScalar_of_lex h.1 h.2, fun h => ⟨h.allowed, (plainScalar_iff.mp h).lex⟩⟩

/-! ### The length of a scalar -/

theorem readHex_length {k acc n : ℕ} {s r : Text} (h : readHex k acc s = some (n, r)) :
    r.length ≤ s.length := by
  induction k generalizing acc s with
  | zero =>
    obtain ⟨-, rfl⟩ := Prod.mk.inj (Option.some.inj h)
    exact le_rfl
  | succ k ih =>
    cases s with
    | nil => cases h
    | cons c s =>
      rw [readHex] at h
      split at h
      · exact (ih h).trans (Nat.le_succ _)
      · cases h

/-- Reading a character takes one. -/
theorem readRune_length {s r : Text} {c : Char} (h : readRune s = some (c, r)) : r.length < s.length := by
  unfold readRune at h
  split at h
  · cases h
  · cases h
  · rename_i l s
    split at h
    · split at h
      · rename_i n s' hx
        split_ifs at h
        obtain ⟨-, rfl⟩ := Prod.mk.inj (Option.some.inj h)
        exact Nat.lt_succ_of_le ((readHex_length hx).trans (Nat.le_succ _))
      · cases h
    · obtain ⟨d, -, he⟩ := Option.map_eq_some_iff.mp h
      obtain ⟨-, rfl⟩ := Prod.mk.inj he
      exact Nat.lt_succ_of_le (Nat.le_succ _)
  · obtain ⟨-, rfl⟩ := Prod.mk.inj (Option.some.inj h)
    exact Nat.lt_succ_self _

theorem readRunes_length {fuel : ℕ} {s t r : Text} (h : readRunes fuel s = some (t, r)) :
    t.length + 1 + r.length ≤ s.length := by
  fun_induction readRunes fuel s generalizing t with
  | case1 => cases h
  | case2 fuel s =>
    obtain ⟨rfl, rfl⟩ := Prod.mk.inj (Option.some.inj h)
    simp [Nat.add_comm]
  | case3 => cases h
  | case4 fuel s hquote c s' hread ih =>
    obtain ⟨⟨u, r'⟩, hu, he⟩ := Option.map_eq_some_iff.mp h
    obtain ⟨rfl, rfl⟩ := Prod.mk.inj he
    have hlen := ih hu
    have hlt := readRune_length hread
    rw [List.length_cons]
    omega

/-- A scalar is no longer than the text it is read from; and one that is as long is
the whole text, plain. -/
theorem lexScalar_length {s r : Text} {v : Scalar} (h : lexScalar s = some (v, r)) :
    v.text.length + r.length ≤ s.length ∧ (v.text.length = s.length → v = .plain s ∧ r = []) := by
  unfold lexScalar at h
  split at h
  · rename_i s
    obtain ⟨⟨t, r'⟩, ht, he⟩ := Option.map_eq_some_iff.mp h
    obtain ⟨rfl, rfl⟩ := Prod.mk.inj he
    have hlen := readRunes_length ht
    simp only [Scalar.text, List.length_cons]
    omega
  · split_ifs at h
    obtain ⟨rfl, rfl⟩ := Prod.mk.inj (Option.some.inj h)
    have hpre : (plainRun s).1.rdropWhile isBlank <+: (plainRun s).1 := List.rdropWhile_prefix _ _
    have happ := plainRun_append_self s
    have hsum : s.length = (plainRun s).1.length + (plainRun s).2.length := by
      rw [← List.length_append, happ]
    have hle := hpre.length_le
    refine ⟨by simp only [Scalar.text]; omega, fun heq => ?_⟩
    simp only [Scalar.text] at heq
    have hr : (plainRun s).2 = [] := List.length_eq_zero_iff.mp (by omega)
    rw [hr, List.append_nil] at happ
    have hwhole := hpre.eq_of_length (by omega)
    rw [hwhole, happ]
    exact ⟨rfl, hr⟩

/-! ### The values under a key -/

section Values

variable (k : Text)

/-- The scalars that stand right after the key `k`; `b` says whether the token
before these is that key. -/
def valuesAfter : (b : Bool) → List Tok → List Text
  | _, [] => []
  | b, t :: ts => match t.lex with
    | .dash => valuesAfter false ts
    | .key k' => valuesAfter (decide (k' = k)) ts
    | .scalar s => (if b then [s.text] else []) ++ valuesAfter false ts

/-- Whether the last token is the key `k`. -/
def endsAt : (b : Bool) → List Tok → Bool
  | b, [] => b
  | _, t :: ts => match t.lex with
    | .dash => endsAt false ts
    | .key k' => endsAt (decide (k' = k)) ts
    | .scalar _ => endsAt false ts

/-- The room these values take: their characters, and one more for each. -/
def weight (b : Bool) (ts : List Tok) : ℕ := ((valuesAfter k b ts).map fun v => v.length + 1).sum

theorem valuesAfter_append (b : Bool) (ts us : List Tok) :
    valuesAfter k b (ts ++ us) = valuesAfter k b ts ++ valuesAfter k (endsAt k b ts) us := by
  induction ts generalizing b with
  | nil => rfl
  | cons t ts ih =>
    rw [List.cons_append]
    simp only [valuesAfter, endsAt]
    split
    · exact ih false
    · exact ih _
    · rw [ih, List.append_assoc]

theorem weight_append (b : Bool) (ts us : List Tok) :
    weight k b (ts ++ us) = weight k b ts + weight k (endsAt k b ts) us := by
  rw [weight, valuesAfter_append, List.map_append, List.sum_append]
  rfl

/-- Out of the context there are fewer values, if any. -/
theorem valuesAfter_sublist (b : Bool) (ts : List Tok) :
    (valuesAfter k false ts).Sublist (valuesAfter k b ts) := by
  cases ts with
  | nil => exact List.Sublist.refl _
  | cons t ts =>
    simp only [valuesAfter]
    split
    · exact List.Sublist.refl _
    · exact List.Sublist.refl _
    · exact List.Sublist.append (List.nil_sublist _) (List.Sublist.refl _)

/-- The values of tokens are values of the tokens around them. -/
theorem valuesAfter_within {ts us : List Tok} (h : ts <:+: us) (b : Bool) :
    (valuesAfter k false ts).Sublist (valuesAfter k b us) := by
  obtain ⟨xs, ys, rfl⟩ := h
  rw [valuesAfter_append, valuesAfter_append, List.append_assoc]
  apply List.Sublist.trans (valuesAfter_sublist k (endsAt k b xs) ts)
  exact (List.sublist_append_left _ _).trans (List.sublist_append_right _ _)

theorem weight_cons_dash (b : Bool) (col : ℕ) (ts : List Tok) :
    weight k b (⟨col, .dash⟩ :: ts) = weight k false ts := rfl

theorem weight_cons_key (b : Bool) (col : ℕ) (k' : Text) (ts : List Tok) :
    weight k b (⟨col, .key k'⟩ :: ts) = weight k (decide (k' = k)) ts := rfl

theorem weight_scalar (b : Bool) (col : ℕ) (s : Scalar) :
    weight k b [⟨col, .scalar s⟩] = if b then s.text.length + 1 else 0 := by
  cases b <;> rfl

/-! ### What a line has room for -/

theorem weight_scalar_le (b : Bool) (col : ℕ) {s r : Text} {v : Scalar} (h : lexScalar s = some (v, r)) :
    weight k b [⟨col, .scalar v⟩] ≤ s.length + b.toNat := by
  have hlen := (lexScalar_length h).1
  rw [weight_scalar]
  cases b with
  | false => exact Nat.zero_le _
  | true =>
    rw [if_pos rfl, Bool.toNat_true]
    omega

theorem lexValue_weight {col : ℕ} {s : Text} {ts : List Tok} (h : lexValue col s = some ts) (b : Bool) :
    weight k b ts ≤ s.length + b.toNat := by
  unfold lexValue at h
  split_ifs at h
  · cases h
    exact Nat.zero_le _
  · split at h
    · rename_i v r hv
      split_ifs at h
      cases h
      have hdrop := (List.dropWhile_suffix isBlank (l := s)).length_le
      have hle := weight_scalar_le k b col hv
      omega
    · cases h

theorem lexEntry_weight {col : ℕ} {s : Text} {ts : List Tok} (h : lexEntry col s = some ts) (b : Bool) :
    weight k b ts ≤ s.length + b.toNat := by
  unfold lexEntry at h
  split at h
  · cases h
  · rename_i v r hv
    split_ifs at h
    · cases h
      exact weight_scalar_le k b col hv
    · split at h
      · rename_i r' hr
        split_ifs at h
        obtain ⟨us, hus, rfl⟩ := Option.map_eq_some_iff.mp h
        have hdrop := (List.dropWhile_suffix isBlank (l := r)).length_le
        rw [hr, List.length_cons] at hdrop
        have hlen := (lexScalar_length hv).1
        have hle := lexValue_weight k hus (decide (v.text = k))
        have hone := Bool.toNat_le (decide (v.text = k))
        rw [weight_cons_key]
        omega
      · cases h

theorem lexFrom_weight {fuel col : ℕ} {s : Text} {ts : List Tok} (h : lexFrom fuel col s = some ts) (b : Bool) :
    weight k b ts ≤ s.length + b.toNat := by
  induction fuel generalizing col s ts b with
  | zero => cases h
  | succ fuel ih =>
    have hdrop := (List.dropWhile_suffix (· == ' ') (l := s)).length_le
    rw [lexFrom] at h
    split at h
    · cases h
      exact Nat.zero_le _
    · cases h
      exact Nat.zero_le _
    · rename_i r hr
      rw [hr, List.length_cons] at hdrop
      split_ifs at h
      · obtain ⟨us, hus, rfl⟩ := Option.map_eq_some_iff.mp h
        have hle := ih hus false
        rw [weight_cons_dash]
        simp only [Bool.toNat_false] at hle
        omega
      · have hle := lexEntry_weight k h b
        rw [List.length_cons] at hle
        omega
    · have hle := lexEntry_weight k h b
      omega

/-- The values of a line have room in it, with one more character for a value that
stands under a key of an earlier line. -/
theorem lexLine_weight {l : Text} {ts : List Tok} (h : lexLine l = some ts) (b : Bool) :
    weight k b ts ≤ l.length + b.toNat := by
  unfold lexLine at h
  split_ifs at h
  · have hle := lexFrom_weight k h b
    rw [List.length_tail] at hle
    omega
  · exact lexFrom_weight k h b

theorem lexLines_weight {ls : List Text} {tss : List (List Tok)} (h : ls.mapM lexLine = some tss) (b : Bool) :
    weight k b tss.flatten ≤ (ls.map fun l => l.length + 1).sum := by
  induction ls generalizing tss b with
  | nil =>
    cases h
    exact le_rfl
  | cons l ls ih =>
    rw [List.mapM_cons] at h
    obtain ⟨ts, hts, h⟩ := Option.bind_eq_some_iff.mp h
    obtain ⟨uss, huss, h⟩ := Option.bind_eq_some_iff.mp h
    cases h
    have hline := lexLine_weight k hts b
    have hrest := ih huss (endsAt k b ts)
    have hone := Bool.toNat_le b
    rw [List.flatten_cons, weight_append, List.map_cons, List.sum_cons]
    omega

/-- Lines that follow a value have one character more than they need. -/
theorem lexLines_weight_lt {ls : List Text} {tss : List (List Tok)} (h : ls.mapM lexLine = some tss)
    (hne : ls ≠ []) : weight k false tss.flatten < (ls.map fun l => l.length + 1).sum := by
  cases ls with
  | nil => exact absurd rfl hne
  | cons l ls =>
    rw [List.mapM_cons] at h
    obtain ⟨ts, hts, h⟩ := Option.bind_eq_some_iff.mp h
    obtain ⟨uss, huss, h⟩ := Option.bind_eq_some_iff.mp h
    cases h
    have hline := lexLine_weight k hts false
    have hrest := lexLines_weight k huss (endsAt k false ts)
    simp only [Bool.toNat_false] at hline
    rw [List.flatten_cons, weight_append, List.map_cons, List.sum_cons]
    omega

/-- Each line has its characters and a newline, but for the last one. -/
theorem sum_splitLines (s : Text) : ((splitLines s).map fun l => l.length + 1).sum = s.length + 1 := by
  induction s with
  | nil => rfl
  | cons c s ih =>
    obtain ⟨l, ls, hs⟩ := List.exists_cons_of_ne_nil (splitLines_ne_nil s)
    rw [hs, List.map_cons, List.sum_cons] at ih
    rw [splitLines, hs, List.length_cons]
    split_ifs <;> simp only [List.map_cons, List.sum_cons, List.length_cons, List.length_nil] <;> omega

theorem tokens_newline_cases {s r : Text} {ts : List Tok} (h : tokens (s ++ '\n' :: r) = some ts) :
    ∃ us vs, tokens s = some us ∧ tokens r = some vs ∧ ts = us ++ vs := by
  rw [tokens_newline] at h
  obtain ⟨us, hus, hbind⟩ := Option.bind_eq_some_iff.mp h
  obtain ⟨vs, hvs, rfl⟩ := Option.map_eq_some_iff.mp hbind
  exact ⟨us, vs, hus, hvs, rfl⟩

/-- The value after a key on its line: none, or a scalar that is no longer than the
line, and only as long when it is the line. -/
theorem lexValue_cases {col : ℕ} {l : Text} {ts : List Tok} (h : lexValue col (' ' :: l) = some ts) :
    ts = [] ∨ ∃ v, ts = [⟨col, .scalar v⟩] ∧ v.text.length ≤ l.length ∧
      (v.text.length = l.length → lexScalar l = some (.plain l, [])) := by
  have hblank : (' ' :: l).dropWhile isBlank = l.dropWhile isBlank := rfl
  unfold lexValue at h
  rw [hblank] at h
  split_ifs at h
  · exact .inl (Option.some.inj h).symm
  · split at h
    · rename_i v r hv
      split_ifs at h
      have hdrop := (List.dropWhile_suffix isBlank (l := l))
      have hlen := lexScalar_length hv
      refine .inr ⟨v, (Option.some.inj h).symm, ?_, fun heq => ?_⟩
      · have hle := hdrop.length_le
        omega
      · have hle := hdrop.length_le
        have hwhole : l.dropWhile isBlank = l := hdrop.eq_of_length (by omega)
        rw [hwhole] at hv hlen
        obtain ⟨rfl, rfl⟩ := hlen.2 heq
        exact hv
    · cases h

/-- **A text written after the key of an item has room for one value of its length**,
and for less when it is not a plain scalar that stands for itself. -/
theorem weight_itemField {i : ℕ} {v : Text} {ts : List Tok} (hk : IsKey k)
    (h : tokens (spaces i ++ '-' :: ' ' :: (k ++ ':' :: ' ' :: v)) = some ts) (b : Bool) :
    weight k b ts ≤ v.length + 1 ∧ (weight k b ts = v.length + 1 → PlainScalar v) := by
  obtain ⟨l, ls, hv⟩ := List.exists_cons_of_ne_nil (splitLines_ne_nil v)
  have hsum := sum_splitLines v
  rw [hv, List.map_cons, List.sum_cons] at hsum
  have hpre : '\n' ∉ spaces i ++ '-' :: ' ' :: (k ++ [':', ' ']) := newline_not_mem (by
    simp [allowed_spaces, hk.allowed, show Yaml.allowed ':' = true from rfl,
      show Yaml.allowed ' ' = true from rfl, show Yaml.allowed '-' = true from rfl])
  have hsplit : splitLines (spaces i ++ '-' :: ' ' :: (k ++ ':' :: ' ' :: v)) =
      (spaces i ++ '-' :: ' ' :: (k ++ ':' :: ' ' :: l)) :: ls := by
    have hs := splitLines_append hpre hv
    simpa using hs
  unfold tokens at h
  rw [hsplit, List.mapM_cons] at h
  obtain ⟨tss, htss, rfl⟩ := Option.map_eq_some_iff.mp h
  obtain ⟨us, hus, hbind⟩ := Option.bind_eq_some_iff.mp htss
  obtain ⟨uss, huss, heq⟩ := Option.bind_eq_some_iff.mp hbind
  cases heq
  have hall : (spaces i ++ '-' :: ' ' :: (k ++ ':' :: ' ' :: l)).all Yaml.allowed = true := by
    unfold lexLine at hus
    split_ifs at hus with hok
    · exact (Bool.and_eq_true_iff.mp hok).1
    · exact (Bool.and_eq_true_iff.mp hok).1
  have hl : l.all Yaml.allowed = true := by
    simp only [List.all_append, List.all_cons, Bool.and_eq_true] at hall
    exact hall.2.2.2.2.2.2
  rw [lexLine_itemKey hk hl] at hus
  obtain ⟨ws, hws, rfl⟩ := Option.map_eq_some_iff.mp hus
  rw [List.flatten_cons, List.cons_append, List.cons_append, weight_cons_dash, weight_cons_key,
    decide_eq_true rfl, weight_append]
  rcases lexValue_cases hws with rfl | ⟨w, rfl, hle, heq⟩
  · -- the value, if any, is on the lines below
    have hrest := lexLines_weight k huss true
    have hzero : weight k true [] = 0 := rfl
    rw [hzero, show endsAt k true [] = true from rfl]
    exact ⟨by omega, fun hw => absurd hw (by omega)⟩
  · rw [weight_scalar, if_pos rfl, show endsAt k true [⟨i + 3, .scalar w⟩] = false from rfl]
    by_cases hls : ls = []
    · rw [hls] at huss hv
      rw [List.mapM_nil] at huss
      cases huss
      obtain rfl := eq_of_splitLines hv
      have hzero : weight k false ([] : List (List Tok)).flatten = 0 := rfl
      rw [hzero]
      exact ⟨by omega, fun hw => plainScalar_of_lex hl (heq (by omega))⟩
    · have hrest := lexLines_weight_lt k huss hls
      exact ⟨by omega, fun hw => absurd hw (by omega)⟩

/-! ### Lines without such values -/

/-- The text gives no value under `k`, and does not leave that key at its end. -/
def Quiet (s : Text) : Prop :=
  ∃ ts, Lexes s ts ∧ ∀ b, valuesAfter k b ts = [] ∧ (endsAt k b ts = true → b = true)

theorem Quiet.nil : Quiet k [] := ⟨[], .nil, fun _ => ⟨rfl, id⟩⟩

theorem endsAt_append (b : Bool) (ts us : List Tok) :
    endsAt k b (ts ++ us) = endsAt k (endsAt k b ts) us := by
  induction ts generalizing b with
  | nil => rfl
  | cons t ts ih =>
    rw [List.cons_append]
    simp only [endsAt]
    split <;> exact ih _

variable {k}

theorem Quiet.append {s s' : Text} (h : Quiet k s) (h' : Quiet k s') : Quiet k (s ++ s') := by
  obtain ⟨ts, hl, hq⟩ := h
  obtain ⟨ts', hl', hq'⟩ := h'
  refine ⟨ts ++ ts', hl.append hl', fun b => ⟨?_, fun hend => ?_⟩⟩
  · rw [valuesAfter_append, (hq b).1, (hq' _).1]
    rfl
  · rw [endsAt_append] at hend
    exact (hq b).2 ((hq' _).2 hend)

theorem Quiet.ite {p : Prop} [Decidable p] {s : Text} (h : p → Quiet k s) : Quiet k (if p then s else []) := by
  split_ifs with hp
  · exact h hp
  · exact Quiet.nil k

theorem Quiet.flatMap {α : Type} {f : α → Text} {l : List α} (h : ∀ a ∈ l, Quiet k (f a)) :
    Quiet k (l.flatMap f) := by
  induction l with
  | nil => exact Quiet.nil k
  | cons a l ih =>
    rw [List.flatMap_cons]
    exact (h a List.mem_cons_self).append (ih fun b hb => h b (List.mem_cons_of_mem _ hb))

variable {k' v : Text} {sc : Scalar} {i : ℕ}

/-- `key: value` -/
theorem Quiet.field (hk : IsKey k') (hne : k' ≠ k) (hv : Reads v sc) :
    Quiet k (spaces i ++ (k' ++ ':' :: ' ' :: v) ++ ['\n']) := by
  have hn : '\n' ∉ spaces i ++ (k' ++ ':' :: ' ' :: v) := newline_not_mem (by
    simp [allowed_spaces, hk.allowed, hv.allowed, show Yaml.allowed ':' = true from rfl,
      show Yaml.allowed ' ' = true from rfl])
  refine ⟨_, Lexes.line hn (lexLine_field hk hv), fun b => ?_⟩
  simp [valuesAfter, endsAt, hne]

/-- `key:` -/
theorem Quiet.header (hk : IsKey k') (hne : k' ≠ k) : Quiet k (spaces i ++ (k' ++ [':']) ++ ['\n']) := by
  refine ⟨_, lexes_header hk, fun b => ?_⟩
  simp [valuesAfter, endsAt, hne]

/-- `- value` -/
theorem Quiet.item (hv : Reads v sc) (hd : v.head? ≠ some '-') :
    Quiet k (spaces i ++ '-' :: ' ' :: v ++ ['\n']) := by
  have hn : '\n' ∉ spaces i ++ '-' :: ' ' :: v := newline_not_mem (by
    simp [allowed_spaces, hv.allowed, show Yaml.allowed '-' = true from rfl,
      show Yaml.allowed ' ' = true from rfl])
  refine ⟨_, Lexes.line hn (lexLine_item hv hd), fun b => ?_⟩
  simp [valuesAfter, endsAt]

theorem weight_le_of_le {b b' : Bool} (h : b = true → b' = true) (ts : List Tok) :
    weight k b ts ≤ weight k b' ts := by
  cases b with
  | true =>
    rw [h rfl]
  | false => exact ((valuesAfter_sublist k b' ts).map _).sum_le_sum fun _ _ => Nat.zero_le _

/-- Quiet lines in front of others change nothing. -/
theorem Quiet.weight_le {s r : Text} (h : Quiet k s) {ts : List Tok} (hts : tokens (s ++ r) = some ts) :
    ∃ us, tokens r = some us ∧ ∀ b, weight k b ts ≤ weight k b us := by
  obtain ⟨qs, hl, hq⟩ := h
  rw [hl] at hts
  obtain ⟨us, hus, rfl⟩ := Option.map_eq_some_iff.mp hts
  refine ⟨us, hus, fun b => ?_⟩
  have hzero : weight k b qs = 0 := by
    rw [weight, (hq b).1]
    rfl
  rw [weight_append, hzero, Nat.zero_add]
  exact weight_le_of_le (hq b).2 us

/-! ### The values of a document -/

theorem split_flatten (inside : Tok → Bool) (ts : List Tok) :
    (split inside ts).1 ++ (split inside ts).2.flatMap (fun p => p.1 :: p.2) = ts := by
  induction ts with
  | nil => rfl
  | cons t ts ih =>
    rw [split]
    split_ifs
    · rw [List.cons_append, ih]
    · rw [List.flatMap_cons, List.nil_append, List.cons_append, ih]

variable {N : Numbers}

theorem resolve_cases (N : Numbers) (t : Text) : resolve N t = .null ∨ (∃ b, resolve N t = .bool b) ∨
    (∃ z, resolve N t = .int z) ∨ resolve N t = .other t ∨ resolve N t = .str t := by
  unfold resolve
  split_ifs
  · exact .inl rfl
  · exact .inr (.inl ⟨true, rfl⟩)
  · exact .inr (.inl ⟨false, rfl⟩)
  · split
    · exact .inr (.inr (.inl ⟨_, rfl⟩))
    · exact .inr (.inr (.inr (.inl rfl)))
  · split
    · exact .inr (.inr (.inl ⟨_, rfl⟩))
    · exact .inr (.inr (.inr (.inr rfl)))

/-- A scalar is no collection, and where it is a text it is its own. -/
theorem node_cases (s : Scalar) : (∀ vs, s.node N ≠ .seq vs) ∧ (∀ es, s.node N ≠ .map es) ∧
    ∀ t, s.node N = .str t → s.text = t := by
  cases s with
  | quoted u => exact ⟨fun _ h => (nomatch h), fun _ h => (nomatch h), fun _ h => Node.str.inj h⟩
  | plain u =>
    rcases resolve_cases N u with h | ⟨_, h⟩ | ⟨_, h⟩ | h | h <;> simp only [Scalar.node, h]
    case inr.inr.inr.inr =>
      exact ⟨fun _ h => (nomatch h), fun _ h => (nomatch h), fun _ h => Node.str.inj h⟩
    all_goals exact ⟨fun _ h => (nomatch h), fun _ h => (nomatch h), fun _ h => (nomatch h)⟩

/-- What a block of tokens can be. -/
theorem parse_cases {n : ℕ} {ts : List Tok} {v : Node} (h : parse N n ts = some v) :
    (ts = [] ∧ v = .null) ∨ (∃ c s, ts = [⟨c, .scalar s⟩] ∧ v = s.node N) ∨
      (∃ m c vs, (split (inItem c) ts).2.mapM (itemOf (parse N m) c) = some vs ∧ v = .seq vs) ∨
      ∃ m c es, (split (inEntry c) ts).2.mapM (entryOf (parse N m) c) = some es ∧ v = .map es := by
  cases n with
  | zero => cases h
  | succ n =>
    cases ts with
    | nil => exact .inl ⟨rfl, (Option.some.inj h).symm⟩
    | cons t ts =>
      obtain ⟨c, l⟩ := t
      cases l with
      | scalar s =>
        simp only [parse] at h
        split_ifs at h with hts
        exact .inr (.inl ⟨c, s, by rw [hts], (Option.some.inj h).symm⟩)
      | dash =>
        obtain ⟨vs, hvs, rfl⟩ := Option.map_eq_some_iff.mp h
        exact .inr (.inr (.inl ⟨n, c, vs, hvs, rfl⟩))
      | key k =>
        obtain ⟨es, hes, rfl⟩ := Option.map_eq_some_iff.mp h
        exact .inr (.inr (.inr ⟨n, c, es, hes, rfl⟩))

theorem parse_str {n : ℕ} {ts : List Tok} {t : Text} (h : parse N n ts = some (.str t)) :
    ∃ c s, ts = [⟨c, .scalar s⟩] ∧ s.text = t := by
  rcases parse_cases h with ⟨-, hv⟩ | ⟨c, s, hts, hv⟩ | ⟨_, _, _, -, hv⟩ | ⟨_, _, _, -, hv⟩
  · cases hv
  · exact ⟨c, s, hts, (node_cases s).2.2 t hv.symm⟩
  · cases hv
  · cases hv

theorem parse_seq {n : ℕ} {ts : List Tok} {vs : List Node} (h : parse N n ts = some (.seq vs)) :
    ∃ m c, (split (inItem c) ts).2.mapM (itemOf (parse N m) c) = some vs := by
  rcases parse_cases h with ⟨-, hv⟩ | ⟨c, s, -, hv⟩ | ⟨m, c, vs', hvs, hv⟩ | ⟨_, _, _, -, hv⟩
  · cases hv
  · exact absurd hv.symm ((node_cases s).1 vs)
  · cases hv
    exact ⟨m, c, hvs⟩
  · cases hv

theorem parse_map {n : ℕ} {ts : List Tok} {es : List (Text × Node)} (h : parse N n ts = some (.map es)) :
    ∃ m c, (split (inEntry c) ts).2.mapM (entryOf (parse N m) c) = some es := by
  rcases parse_cases h with ⟨-, hv⟩ | ⟨c, s, -, hv⟩ | ⟨_, _, _, -, hv⟩ | ⟨m, c, es', hes, hv⟩
  · cases hv
  · exact absurd hv.symm ((node_cases s).2.1 es)
  · cases hv
  · cases hv
    exact ⟨m, c, hes⟩

theorem exists_of_lookup {f : List Tok → Option Node} {c : ℕ} {bs : List (Tok × List Tok)}
    {es : List (Text × Node)} (h : bs.mapM (entryOf f c) = some es) {w : Node} (hw : lookup k es = some w) :
    ∃ b, (⟨c, .key k⟩, b) ∈ bs ∧ f b = some w := by
  induction bs generalizing es with
  | nil =>
    rw [List.mapM_nil] at h
    cases h
    cases hw
  | cons p bs ih =>
    rw [List.mapM_cons] at h
    obtain ⟨⟨k', v⟩, hp, hbind⟩ := Option.bind_eq_some_iff.mp h
    obtain ⟨es', hes, heq⟩ := Option.bind_eq_some_iff.mp hbind
    cases heq
    rw [lookup] at hw
    split at hw
    · rename_i u hu
      cases hw
      obtain ⟨b, hb, hf⟩ := ih hes hu
      exact ⟨b, List.mem_cons_of_mem _ hb, hf⟩
    · split_ifs at hw with hk
      cases hw
      obtain ⟨⟨c', l⟩, b⟩ := p
      unfold entryOf at hp
      split at hp
      · split_ifs at hp with hc
        obtain ⟨u, hu, hv⟩ := Option.map_eq_some_iff.mp hp
        rename_i heq
        cases heq
        cases hv
        subst hc hk
        exact ⟨_, List.mem_cons_self, hu⟩
      · cases hp

/-- The tokens of a key and what is under it are among those of the mapping. -/
theorem parse_lookup {n : ℕ} {ts : List Tok} {es : List (Text × Node)} (h : parse N n ts = some (.map es))
    {w : Node} (hw : lookup k es = some w) : ∃ m c b, (⟨c, .key k⟩ :: b) <:+: ts ∧ parse N m b = some w := by
  obtain ⟨m, c, hes⟩ := parse_map h
  obtain ⟨b, hb, hf⟩ := exists_of_lookup hes hw
  have hin : (⟨c, .key k⟩ :: b) <:+: (split (inEntry c) ts).2.flatMap fun p => p.1 :: p.2 := by
    rw [List.flatMap_def]
    exact List.infix_of_mem_flatten (List.mem_map.mpr ⟨_, hb, rfl⟩)
  have hsuf := List.suffix_append (split (inEntry c) ts).1
    ((split (inEntry c) ts).2.flatMap fun p => p.1 :: p.2)
  rw [split_flatten] at hsuf
  exact ⟨m, c, b, hin.trans hsuf.isInfix, hf⟩

/-- A text under the key `k` is one of its values. -/
theorem value_sublist {n : ℕ} {ts : List Tok} {es : List (Text × Node)} (h : parse N n ts = some (.map es))
    {t : Text} (hw : lookup k es = some (.str t)) : [t].Sublist (valuesAfter k false ts) := by
  obtain ⟨m, c, b, hin, hb⟩ := parse_lookup h hw
  obtain ⟨c', s, rfl, rfl⟩ := parse_str hb
  have hsub := valuesAfter_within k hin false
  have hval : valuesAfter k false [⟨c, .key k⟩, ⟨c', .scalar s⟩] = [s.text] := by
    simp [valuesAfter]
  rwa [hval] at hsub

theorem values_of_items {f : ℕ} {c : ℕ} {bs : List (Tok × List Tok)} {vs : List Node} {names : List Text}
    (h : bs.mapM (itemOf (parse N f) c) = some vs)
    (hn : List.Forall₂ (fun t v => ∃ es, v = .map es ∧ lookup k es = some (.str t)) names vs) :
    names.Sublist (valuesAfter k false (bs.flatMap fun p => p.1 :: p.2)) := by
  induction bs generalizing vs names with
  | nil =>
    rw [List.mapM_nil] at h
    cases h
    cases hn
    exact List.Sublist.refl _
  | cons p bs ih =>
    rw [List.mapM_cons] at h
    obtain ⟨v, hp, hbind⟩ := Option.bind_eq_some_iff.mp h
    obtain ⟨vs', hvs, heq⟩ := Option.bind_eq_some_iff.mp hbind
    cases heq
    cases hn with
    | cons hv hrest =>
      obtain ⟨es, rfl, hes⟩ := hv
      obtain ⟨⟨c', l⟩, b⟩ := p
      unfold itemOf at hp
      split at hp
      · split_ifs at hp
        rename_i heq _
        cases heq
        rw [List.flatMap_cons, valuesAfter_append]
        have hone := value_sublist hp hes
        have htail := (ih hvs hrest).trans (valuesAfter_sublist k (endsAt k false (⟨c', .dash⟩ :: b)) _)
        exact hone.append htail
      · cases hp

/-- **The texts under the key `k` of the items of a sequence are values of its tokens.** -/
theorem values_sublist {n : ℕ} {ts : List Tok} {vs : List Node} {names : List Text}
    (h : parse N n ts = some (.seq vs))
    (hn : List.Forall₂ (fun t v => ∃ es, v = .map es ∧ lookup k es = some (.str t)) names vs) :
    names.Sublist (valuesAfter k false ts) := by
  obtain ⟨m, c, hvs⟩ := parse_seq h
  have hsub := values_of_items hvs hn
  have hsuf := List.suffix_append (split (inItem c) ts).1 ((split (inItem c) ts).2.flatMap fun p => p.1 :: p.2)
  rw [split_flatten] at hsuf
  exact hsub.trans (valuesAfter_within k hsuf.isInfix false)

end Values

end Yaml
