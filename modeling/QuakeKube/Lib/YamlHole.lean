/-
# A quoted scalar in a document

A document is read as if any other text stood in the place of a quoted scalar:
either it is not read, whatever the text, or it is read as one value with a hole
(`Ctx`) that the text fills (`uniform_load`). Where the scalar stands decides
which, by the columns of the tokens around it.

Key definitions: `Ctx`, `Ctx.fill`, `Uniform`, `WholeLines`.
Key theorems: `split_hole`, `uniform_parse`, `uniform_load`.
-/
import QuakeKube.Lib.YamlWriter

namespace Yaml

open Go

/-- A value with a hole in it. -/
inductive Ctx where
  | hole
  | item (before : List Node) (ctx : Ctx) (after : List Node)
  | entry (before : List (Text × Node)) (key : Text) (ctx : Ctx) (after : List (Text × Node))

/-- The value with `v` in the hole. -/
def Ctx.fill (v : Node) : Ctx → Node
  | .hole => v
  | .item before ctx after => .seq (before ++ ctx.fill v :: after)
  | .entry before key ctx after => .map (before ++ (key, ctx.fill v) :: after)

/-- No value for any text, or one value with the text in its hole. -/
def Uniform (f : Text → Option Node) : Prop :=
  (∀ s, f s = none) ∨ ∃ ctx : Ctx, ∀ s, f s = some (ctx.fill (.str s))

theorem Uniform.none {f : Text → Option Node} (h : ∀ s, f s = none) : Uniform f := .inl h

theorem Uniform.some {f : Text → Option Node} (ctx : Ctx) (h : ∀ s, f s = some (ctx.fill (.str s))) :
    Uniform f := .inr ⟨ctx, h⟩

/-! ### Nesting -/

variable {N : Numbers} {col : ℕ}

/-- The quoted scalar at `col`. -/
def quotedTok (col : ℕ) (s : Text) : Tok := ⟨col, .scalar (.quoted s)⟩

/-- Where a token with varying text comes to lie: before the first block, at the
head of a block, or in one. -/
theorem split_hole {inside : Tok → Bool} {tok : Text → Tok} (hin : ∀ s s', inside (tok s) = inside (tok s'))
    (pre post : List Tok) :
    (∃ a b gs, ∀ s, split inside (pre ++ tok s :: post) = (a ++ tok s :: b, gs)) ∨
    (∃ a gs b gs', ∀ s, split inside (pre ++ tok s :: post) = (a, gs ++ (tok s, b) :: gs')) ∨
    ∃ a gs t b b' gs', ∀ s, split inside (pre ++ tok s :: post) = (a, gs ++ (t, b ++ tok s :: b') :: gs') := by
  induction pre with
  | nil =>
    cases hs : inside (tok []) with
    | true =>
      refine .inl ⟨[], (split inside post).1, (split inside post).2, fun s => ?_⟩
      rw [List.nil_append, split, hin s [], if_pos hs, List.nil_append]
    | false =>
      refine .inr (.inl ⟨[], [], (split inside post).1, (split inside post).2, fun s => ?_⟩)
      rw [List.nil_append, split, hin s [], if_neg (by simp [hs]), List.nil_append]
  | cons t pre ih =>
    cases ht : inside t with
    | true =>
      rcases ih with ⟨a, b, gs, h⟩ | ⟨a, gs, b, gs', h⟩ | ⟨a, gs, u, b, b', gs', h⟩
      · exact .inl ⟨t :: a, b, gs, fun s => by rw [List.cons_append, split, if_pos ht, h s]; rfl⟩
      · exact .inr (.inl ⟨t :: a, gs, b, gs', fun s => by rw [List.cons_append, split, if_pos ht, h s]⟩)
      · exact .inr (.inr ⟨t :: a, gs, u, b, b', gs', fun s => by rw [List.cons_append, split, if_pos ht, h s]⟩)
    | false =>
      have hn : ¬ inside t = true := by simp [ht]
      rcases ih with ⟨a, b, gs, h⟩ | ⟨a, gs, b, gs', h⟩ | ⟨a, gs, u, b, b', gs', h⟩
      · exact .inr (.inr ⟨[], [], t, a, b, gs, fun s => by rw [List.cons_append, split, if_neg hn, h s]; rfl⟩)
      · exact .inr (.inl ⟨[], (t, a) :: gs, b, gs', fun s => by
          rw [List.cons_append, split, if_neg hn, h s]; rfl⟩)
      · exact .inr (.inr ⟨[], (t, a) :: gs, u, b, b', gs', fun s => by
          rw [List.cons_append, split, if_neg hn, h s]; rfl⟩)

/-- One element of a list that is read element by element. -/
theorem mapM_hole {α β : Type} (f : α → Option β) (xs ys : List α) :
    (∀ x, (xs ++ x :: ys).mapM f = none) ∨
      ∃ us vs, ∀ x, (xs ++ x :: ys).mapM f = (f x).map fun v => us ++ v :: vs := by
  have happ : ∀ x, (xs ++ x :: ys).mapM f =
      (xs.mapM f).bind fun us => (f x).bind fun v => (ys.mapM f).map fun vs => us ++ v :: vs := by
    intro x
    rw [List.mapM_append, List.mapM_cons]
    cases xs.mapM f <;> cases f x <;> cases ys.mapM f <;> rfl
  cases hx : xs.mapM f with
  | none =>
    left
    intro x
    rw [happ, hx, Option.bind_none]
  | some us =>
    cases hy : ys.mapM f with
    | none =>
      left
      intro x
      rw [happ, hx, hy]
      cases f x <;> rfl
    | some vs =>
      right
      refine ⟨us, vs, fun x => ?_⟩
      rw [happ, hx, hy]
      cases f x <;> rfl

/-- Behind a token that begins a block, a token lies at the head of a block or in one. -/
theorem blocks_hole {inside : Tok → Bool} {tok : Text → Tok} (hin : ∀ s s', inside (tok s) = inside (tok s'))
    {t : Tok} (ht : inside t = false) (pre post : List Tok) :
    (∃ gs b gs', ∀ s, (split inside (t :: (pre ++ tok s :: post))).2 = gs ++ (tok s, b) :: gs') ∨
    ∃ gs u b b' gs', ∀ s,
      (split inside (t :: (pre ++ tok s :: post))).2 = gs ++ (u, b ++ tok s :: b') :: gs' := by
  rcases split_hole hin (t :: pre) post with ⟨a, b, gs, h⟩ | ⟨a, gs, b, gs', h⟩ | ⟨a, gs, u, b, b', gs', h⟩
  · have h := h []
    rw [List.cons_append, split, if_neg (by simp [ht])] at h
    have ha : [] = a ++ tok [] :: b := congrArg Prod.fst h
    simp at ha
  · exact .inl ⟨gs, b, gs', fun s => congrArg Prod.snd (h s)⟩
  · exact .inr ⟨gs, u, b, b', gs', fun s => congrArg Prod.snd (h s)⟩

/-- A block that is an item is one whatever is in it. -/
theorem itemOf_cases (f : List Tok → Option Node) (col : ℕ) (u : Tok) :
    (∀ b, itemOf f col (u, b) = none) ∨ ∀ b, itemOf f col (u, b) = f b := by
  obtain ⟨c, l⟩ := u
  cases l with
  | dash =>
    by_cases hc : c = col
    · exact .inr fun b => if_pos hc
    · exact .inl fun b => if_neg hc
  | key k => exact .inl fun b => rfl
  | scalar sc => exact .inl fun b => rfl

theorem entryOf_cases (f : List Tok → Option Node) (col : ℕ) (u : Tok) :
    (∀ b, entryOf f col (u, b) = none) ∨ ∃ k, ∀ b, entryOf f col (u, b) = (f b).map (k, ·) := by
  obtain ⟨c, l⟩ := u
  cases l with
  | key k =>
    by_cases hc : c = col
    · exact .inr ⟨k, fun b => if_pos hc⟩
    · exact .inl fun b => if_neg hc
  | dash => exact .inl fun b => rfl
  | scalar sc => exact .inl fun b => rfl

/-- Items, one of which is uniform. -/
theorem Uniform.items {g : Text → List Tok} {f : List Tok → Option Node} {c : ℕ} {u : Tok}
    {gs gs' : List (Tok × List Tok)} (h : Uniform fun s => f (g s)) :
    Uniform fun s => ((gs ++ (u, g s) :: gs').mapM (itemOf f c)).map .seq := by
  rcases mapM_hole (itemOf f c) gs gs' with hm | ⟨us, vs, hm⟩
  · exact .none fun s => by rw [hm]; rfl
  · rcases itemOf_cases f c u with hu | hu
    · exact .none fun s => by rw [hm, hu]; rfl
    · rcases h with h | ⟨ctx, h⟩ <;> beta_reduce at h
      · exact .none fun s => by rw [hm, hu, h]; rfl
      · exact .some (.item us ctx vs) fun s => by rw [hm, hu, h]; rfl

/-- Entries, one of which is uniform. -/
theorem Uniform.entries {g : Text → List Tok} {f : List Tok → Option Node} {c : ℕ} {u : Tok}
    {gs gs' : List (Tok × List Tok)} (h : Uniform fun s => f (g s)) :
    Uniform fun s => ((gs ++ (u, g s) :: gs').mapM (entryOf f c)).map .map := by
  rcases mapM_hole (entryOf f c) gs gs' with hm | ⟨us, vs, hm⟩
  · exact .none fun s => by rw [hm]; rfl
  · rcases entryOf_cases f c u with hu | ⟨k, hu⟩
    · exact .none fun s => by rw [hm, hu]; rfl
    · rcases h with h | ⟨ctx, h⟩ <;> beta_reduce at h
      · exact .none fun s => by rw [hm, hu, h]; rfl
      · exact .some (.entry us k ctx vs) fun s => by rw [hm, hu, h]; rfl

/-- **Tokens nest alike, whatever the text of a quoted scalar among them.** -/
theorem uniform_parse (fuel : ℕ) (pre post : List Tok) :
    Uniform fun s => parse N fuel (pre ++ quotedTok col s :: post) := by
  induction fuel generalizing pre post with
  | zero => exact .none fun s => rfl
  | succ fuel ih =>
    cases pre with
    | nil =>
      by_cases hp : post = []
      · exact .some .hole fun s => if_pos hp
      · exact .none fun s => if_neg hp
    | cons t pre =>
      obtain ⟨c, l⟩ := t
      cases l with
      | scalar sc => exact .none fun s => if_neg (by simp)
      | dash =>
        have hin : ∀ s s', inItem c (quotedTok col s) = inItem c (quotedTok col s') := fun _ _ => rfl
        have ht : inItem c ⟨c, .dash⟩ = false := by simp [inItem]
        have hparse : ∀ s, parse N (fuel + 1) (⟨c, .dash⟩ :: pre ++ quotedTok col s :: post) =
            ((split (inItem c) (⟨c, .dash⟩ :: (pre ++ quotedTok col s :: post))).2.mapM
              (itemOf (parse N fuel) c)).map .seq := fun s => rfl
        simp only [hparse]
        rcases blocks_hole hin ht pre post with ⟨gs, b, gs', h⟩ | ⟨gs, u, b, b', gs', h⟩
        · -- a scalar begins no item
          simp only [h]
          refine .none fun s => ?_
          rcases mapM_hole (itemOf (parse N fuel) c) gs gs' with hm | ⟨us, vs, hm⟩
          · rw [hm]; rfl
          · rw [hm]; rfl
        · simp only [h]
          exact .items (ih b b')
      | key k =>
        have hin : ∀ s s', inEntry c (quotedTok col s) = inEntry c (quotedTok col s') := by
          simp [inEntry, quotedTok]
        have ht : inEntry c ⟨c, .key k⟩ = false := by simp [inEntry]
        have hparse : ∀ s, parse N (fuel + 1) (⟨c, .key k⟩ :: pre ++ quotedTok col s :: post) =
            ((split (inEntry c) (⟨c, .key k⟩ :: (pre ++ quotedTok col s :: post))).2.mapM
              (entryOf (parse N fuel) c)).map .map := fun s => rfl
        simp only [hparse]
        rcases blocks_hole hin ht pre post with ⟨gs, b, gs', h⟩ | ⟨gs, u, b, b', gs', h⟩
        · simp only [h]
          refine .none fun s => ?_
          rcases mapM_hole (entryOf (parse N fuel) c) gs gs' with hm | ⟨us, vs, hm⟩
          · rw [hm]; rfl
          · rw [hm]; rfl
        · simp only [h]
          exact .entries (ih b b')

/-! ### Lines -/

/-- The text ends with a line's end, or is empty. -/
def WholeLines (t : Text) : Prop := t = [] ∨ ∃ b, t = b ++ ['\n']

theorem WholeLines.nil : WholeLines [] := .inl rfl

theorem WholeLines.append {s t : Text} (hs : WholeLines s) (ht : WholeLines t) : WholeLines (s ++ t) := by
  rcases ht with rfl | ⟨b, rfl⟩
  · rwa [List.append_nil]
  · exact .inr ⟨s ++ b, (List.append_assoc _ _ _).symm⟩

theorem WholeLines.flatMap {α : Type} {f : α → Text} {l : List α} (h : ∀ a, WholeLines (f a)) :
    WholeLines (l.flatMap f) := by
  induction l with
  | nil => exact .nil
  | cons a l ih =>
    rw [List.flatMap_cons]
    exact (h a).append ih

/-- Whole lines are read on their own. -/
theorem WholeLines.tokens {t : Text} (h : WholeLines t) (r : Text) :
    tokens (t ++ r) = (Yaml.tokens t).bind fun ts => (Yaml.tokens r).map (ts ++ ·) := by
  have hnil : Yaml.tokens [] = some [] := rfl
  rcases h with rfl | ⟨b, rfl⟩
  · rw [List.nil_append, hnil]
    cases Yaml.tokens r <;> rfl
  · rw [List.append_assoc, List.singleton_append, tokens_newline, tokens_newline b [], hnil]
    cases Yaml.tokens b <;> simp

/-- **A document with a quoted scalar at the end of a line** is read alike,
whatever the text of the scalar. -/
theorem uniform_load {before after : Text} {l : Text → Text} {ts : List Tok} (hb : WholeLines before)
    (hl : ∀ s, lexLine (l s) = some (ts ++ [quotedTok col s])) (hn : ∀ s, '\n' ∉ l s) :
    Uniform fun s => load N (before ++ (l s ++ '\n' :: after)) := by
  have hline : ∀ s, tokens (l s ++ '\n' :: after) = (tokens after).map (ts ++ [quotedTok col s] ++ ·) := by
    intro s
    have h := Lexes.line (hn s) (hl s) after
    rwa [List.append_assoc, List.singleton_append] at h
  have htok : ∀ s, tokens (before ++ (l s ++ '\n' :: after)) = (tokens before).bind fun xs =>
      (tokens after).map fun ys => xs ++ ts ++ quotedTok col s :: ys := by
    intro s
    rw [hb.tokens, hline]
    cases tokens before <;> cases tokens after <;> simp
  cases hx : tokens before with
  | none => exact .none fun s => by rw [load, htok, hx]; rfl
  | some xs =>
    cases hy : tokens after with
    | none => exact .none fun s => by rw [load, htok, hx, hy]; rfl
    | some ys =>
      have hload : ∀ s, load N (before ++ (l s ++ '\n' :: after)) =
          parse N ((xs ++ ts).length + ys.length + 2) (xs ++ ts ++ quotedTok col s :: ys) := by
        intro s
        rw [load, htok, hx, hy, Option.bind_some, Option.map_some, Option.bind_some]
        congr 1
        simp only [List.length_append, List.length_cons]
        omega
      simp only [hload]
      exact uniform_parse _ _ _

end Yaml
