/-
# Lexical paths

Slash-separated paths as Go's `path/filepath` treats them on Unix: `Clean`,
`Join`, `Split` and `Base` look at a path's text only. Here the text is read
as a list of moves (`moves`), and a path names the place a walk along them
ends at (`locate`); `clean` writes that place down again.

A walk from `D` comes back beneath `D` or not. `walk_eq` separates what the
moves do on their own (how far they climb, which names are left) from where
they start, and `beneath_walk_iff` decides it: the names the walk climbed out
of must be the first names it enters again.

Key definitions: `Loc`, `Loc.walk`, `locate`, `clean`, `join`, `split`, `dir`, `base`.
Key theorems: `Loc.walk_eq`, `Loc.beneath_walk_iff`, `locate_render`,
`walk_moves_render`, `locate_join`, `beneath_join_iff`.
-/
import QuakeKube.Lib.Text

namespace Go

/-- The segment that leads to the parent. -/
abbrev dotdot : Text := ['.', '.']

/-- A segment that names an entry of a directory. -/
def IsName (s : Text) : Prop := s ≠ [] ∧ s ≠ ['.'] ∧ s ≠ dotdot ∧ '/' ∉ s

instance : DecidablePred IsName := fun s => by unfold IsName; infer_instance

/-- The name of a directory entry. -/
abbrev Name := {s : Text // IsName s}

/-- What a segment does to a walk. -/
inductive Move
  | stay
  | up
  | into (n : Name)
deriving DecidableEq

def move (s : Text) : Move :=
  if h : IsName s then .into ⟨s, h⟩ else if s = dotdot then .up else .stay

/-- The moves a path's text makes, segment by segment. -/
def moves (p : Text) : List Move := (p.splitOn '/').map move

/-- A place in the tree: names below the root, or below the working directory
after `ups` steps up. -/
structure Loc where
  rooted : Bool
  ups : ℕ
  names : List Name
  rooted_ups : rooted = true → ups = 0
deriving DecidableEq

namespace Loc

/-- The working directory. -/
def here : Loc := ⟨false, 0, [], by simp⟩

/-- The root. -/
def root : Loc := ⟨true, 0, [], by simp⟩

/-- `n` steps up. The root is its own parent. -/
def climb (L : Loc) (n : ℕ) : Loc where
  rooted := L.rooted
  ups := if L.rooted then 0 else L.ups + (n - L.names.length)
  names := L.names.take (L.names.length - n)
  rooted_ups h := by simp [h]

/-- Down a list of names. -/
def enter (L : Loc) (ns : List Name) : Loc := { L with names := L.names ++ ns }

def step (L : Loc) : Move → Loc
  | .stay => L
  | .up => L.climb 1
  | .into n => L.enter [n]

def walk (L : Loc) (ms : List Move) : Loc := ms.foldl step L

/-- `L` is `D` or lies below it. -/
def Beneath (L D : Loc) : Prop := ∃ ns, L = D.enter ns

/-- `L` lies below `D`. -/
def StrictlyBeneath (L D : Loc) : Prop := ∃ ns, ns ≠ [] ∧ L = D.enter ns

theorem StrictlyBeneath.beneath {L D : Loc} (h : L.StrictlyBeneath D) : L.Beneath D := by
  obtain ⟨ns, -, h⟩ := h
  exact ⟨ns, h⟩

@[ext] theorem ext {L M : Loc} (h1 : L.rooted = M.rooted) (h2 : L.ups = M.ups)
    (h3 : L.names = M.names) : L = M := by
  cases L; cases M; simp_all

@[simp] theorem enter_rooted (L : Loc) (ns : List Name) : (L.enter ns).rooted = L.rooted := rfl
@[simp] theorem enter_ups (L : Loc) (ns : List Name) : (L.enter ns).ups = L.ups := rfl
@[simp] theorem enter_names (L : Loc) (ns : List Name) : (L.enter ns).names = L.names ++ ns := rfl
@[simp] theorem climb_rooted (L : Loc) (n : ℕ) : (L.climb n).rooted = L.rooted := rfl
@[simp] theorem climb_names (L : Loc) (n : ℕ) :
    (L.climb n).names = L.names.take (L.names.length - n) := rfl

theorem climb_ups (L : Loc) (n : ℕ) :
    (L.climb n).ups = if L.rooted then 0 else L.ups + (n - L.names.length) := rfl

/-- Lying beneath is a matter of the names. -/
theorem beneath_iff (L D : Loc) :
    L.Beneath D ↔ L.rooted = D.rooted ∧ L.ups = D.ups ∧ D.names <+: L.names := by
  constructor
  · rintro ⟨ns, rfl⟩
    exact ⟨rfl, rfl, List.prefix_append _ _⟩
  · rintro ⟨hr, hu, ns, hn⟩
    exact ⟨ns, Loc.ext hr hu hn.symm⟩

theorem strictlyBeneath_iff_ne (L D : Loc) : L.StrictlyBeneath D ↔ L.Beneath D ∧ L ≠ D := by
  constructor
  · rintro ⟨ns, hne, rfl⟩
    refine ⟨⟨ns, rfl⟩, fun h => hne ?_⟩
    simpa using congrArg Loc.names h
  · rintro ⟨⟨ns, rfl⟩, hne⟩
    refine ⟨ns, fun h => hne ?_, rfl⟩
    subst h
    ext1 <;> simp

instance (L D : Loc) : Decidable (L.Beneath D) := decidable_of_iff _ (beneath_iff L D).symm

instance (L D : Loc) : Decidable (L.StrictlyBeneath D) :=
  decidable_of_iff _ (strictlyBeneath_iff_ne L D).symm

@[simp] theorem enter_nil (L : Loc) : L.enter [] = L := by ext1 <;> simp

@[simp] theorem enter_enter (L : Loc) (ns ms : List Name) :
    (L.enter ns).enter ms = L.enter (ns ++ ms) := by
  ext1 <;> simp

theorem enter_inj {L : Loc} {ns ms : List Name} : L.enter ns = L.enter ms ↔ ns = ms := by
  constructor
  · intro h
    have := congrArg Loc.names h
    simpa using this
  · rintro rfl; rfl

@[simp] theorem climb_zero (L : Loc) : L.climb 0 = L := by
  ext1
  · rfl
  · rw [climb_ups]
    split
    · rename_i h; exact (L.rooted_ups h).symm
    · omega
  · simp

theorem climb_climb (L : Loc) (m n : ℕ) : (L.climb m).climb n = L.climb (m + n) := by
  ext1
  · rfl
  · simp only [climb_ups, climb_rooted, climb_names, List.length_take]
    split
    · rfl
    · omega
  · simp only [climb_names, List.length_take, List.take_take]
    congr 1
    omega

/-- Climbing out of names just entered leaves the first of them. -/
theorem climb_enter (L : Loc) (ns : List Name) (h : ns ≠ []) :
    (L.enter ns).climb 1 = L.enter ns.dropLast := by
  have hp : 0 < ns.length := List.length_pos_iff.mpr h
  ext1
  · rfl
  · rw [climb_ups]
    simp only [enter_rooted, enter_ups, enter_names, List.length_append]
    split
    · rename_i hr; exact (L.rooted_ups hr).symm
    · omega
  · simp only [climb_names, enter_names, List.length_append, List.dropLast_eq_take]
    rw [List.take_append, List.take_of_length_le (by omega)]
    congr 2
    omega

theorem walk_nil (L : Loc) : L.walk [] = L := rfl

@[simp] theorem walk_stay (L : Loc) : L.walk [.stay] = L := rfl

theorem walk_append (L : Loc) (a b : List Move) : L.walk (a ++ b) = (L.walk a).walk b := by
  simp [walk, List.foldl_append]

theorem walk_concat (L : Loc) (ms : List Move) (m : Move) :
    L.walk (ms ++ [m]) = (L.walk ms).step m := by
  simp [walk, List.foldl_append]

theorem walk_rooted (L : Loc) (ms : List Move) : (L.walk ms).rooted = L.rooted := by
  induction ms using List.reverseRecOn with
  | nil => rfl
  | append_singleton ms m ih =>
    rw [walk_concat, ← ih]
    cases m <;> rfl

theorem walk_into (L : Loc) (ns : List Name) : L.walk (ns.map .into) = L.enter ns := by
  induction ns using List.reverseRecOn with
  | nil => simp [walk_nil]
  | append_singleton ns n ih =>
    rw [List.map_append, List.map_singleton, walk_concat, ih]
    simp [step]

theorem walk_up (L : Loc) (n : ℕ) : L.walk (List.replicate n .up) = L.climb n := by
  induction n with
  | zero => simp [walk_nil]
  | succ n ih =>
    rw [List.replicate_succ', walk_concat, ih]
    exact climb_climb L n 1

/-- **A walk is a climb and a descent.** From any place, moves end where they
would after climbing as far, and entering the same names, as they do from the
working directory. -/
theorem walk_eq (L : Loc) (ms : List Move) :
    L.walk ms = (L.climb (here.walk ms).ups).enter (here.walk ms).names := by
  induction ms using List.reverseRecOn with
  | nil => simp [walk_nil, here]
  | append_singleton ms m ih =>
    rw [walk_concat, walk_concat, ih]
    have hr : (here.walk ms).rooted = false := walk_rooted here ms
    generalize here.walk ms = R at hr ⊢
    cases m with
    | stay => rfl
    | into n => simp [step]
    | up =>
      simp only [step]
      by_cases hn : R.names = []
      · -- nothing entered: one more step up
        have hu : (R.climb 1).ups = R.ups + 1 := by rw [climb_ups, hr, hn]; rfl
        have hnm : (R.climb 1).names = [] := by simp [hn]
        rw [hn, hu, hnm, enter_nil, enter_nil, climb_climb]
      · -- the last name entered is left
        have hp : 0 < R.names.length := List.length_pos_iff.mpr hn
        have hu : (R.climb 1).ups = R.ups := by
          rw [climb_ups, hr]
          simp only [Bool.false_eq_true, if_false]
          omega
        rw [climb_enter _ _ hn, hu, climb_names, List.dropLast_eq_take]

/-- Where moves that climb `u` steps and then enter `ns` end beneath their
start: the names climbed out of are the first ones entered again. -/
def Returns (D : Loc) (u : ℕ) (ns : List Name) : Prop :=
  (D.rooted = true ∨ u ≤ D.names.length) ∧ D.names.drop (D.names.length - u) <+: ns

instance (D : Loc) (u : ℕ) (ns : List Name) : Decidable (Returns D u ns) := by
  unfold Returns; infer_instance

theorem climb_enter_eq_iff (D : Loc) (u : ℕ) (ns ms : List Name) :
    (D.climb u).enter ns = D.enter ms ↔
      (D.rooted = true ∨ u ≤ D.names.length) ∧ ns = D.names.drop (D.names.length - u) ++ ms := by
  have hups : ((D.climb u).enter ns).ups = (D.enter ms).ups ↔
      (D.rooted = true ∨ u ≤ D.names.length) := by
    simp only [enter_ups, climb_ups]
    by_cases hr : D.rooted = true
    · simp [hr, D.rooted_ups hr]
    · simp only [hr, Bool.false_eq_true, if_false, false_or]
      omega
  have hnames : ((D.climb u).enter ns).names = (D.enter ms).names ↔
      ns = D.names.drop (D.names.length - u) ++ ms := by
    simp only [enter_names, climb_names]
    conv_lhs => rw [← List.take_append_drop (D.names.length - u) D.names]
    rw [List.append_assoc]
    simp
  rw [Loc.ext_iff, hups, hnames]
  simp

theorem beneath_climb_iff (D : Loc) (u : ℕ) (ns : List Name) :
    ((D.climb u).enter ns).Beneath D ↔ Returns D u ns := by
  unfold Beneath Returns
  simp only [climb_enter_eq_iff, exists_and_left]
  constructor
  · rintro ⟨h, ms, rfl⟩
    exact ⟨h, List.prefix_append _ _⟩
  · rintro ⟨h, ms, rfl⟩
    exact ⟨h, ms, rfl⟩

/-- **Where a walk stays.** -/
theorem beneath_walk_iff (D : Loc) (ms : List Move) :
    (D.walk ms).Beneath D ↔ Returns D (here.walk ms).ups (here.walk ms).names := by
  rw [walk_eq]
  exact beneath_climb_iff D _ _

theorem strictlyBeneath_iff (D : Loc) (u : ℕ) (ns : List Name) :
    ((D.climb u).enter ns).StrictlyBeneath D ↔
      Returns D u ns ∧ ns ≠ D.names.drop (D.names.length - u) := by
  unfold StrictlyBeneath Returns
  simp only [climb_enter_eq_iff]
  constructor
  · rintro ⟨ms, hne, h, rfl⟩
    refine ⟨⟨h, List.prefix_append _ _⟩, ?_⟩
    simpa using hne
  · rintro ⟨⟨h, ms, rfl⟩, hne⟩
    exact ⟨ms, by simpa using hne, h, rfl⟩

theorem strictlyBeneath_walk_iff (D : Loc) (ms : List Move) :
    (D.walk ms).StrictlyBeneath D ↔ Returns D (here.walk ms).ups (here.walk ms).names ∧
      (here.walk ms).names ≠ D.names.drop (D.names.length - (here.walk ms).ups) := by
  rw [walk_eq]
  exact strictlyBeneath_iff D _ _

/-- The names on the way from the root, where `cwd` is the working directory. -/
def absolute (cwd : List Name) (L : Loc) : List Name :=
  if L.rooted then L.names else cwd.take (cwd.length - L.ups) ++ L.names

theorem absolute_enter (cwd : List Name) (L : Loc) (ns : List Name) :
    absolute cwd (L.enter ns) = absolute cwd L ++ ns := by
  unfold absolute
  by_cases hr : L.rooted = true <;> simp [hr]

/-- The segments of a place's shortest text. -/
def segments (L : Loc) : List Text := List.replicate L.ups dotdot ++ L.names.map Subtype.val

theorem segments_eq_nil_iff (L : Loc) : L.segments = [] ↔ L.ups = 0 ∧ L.names = [] := by
  simp only [segments, List.append_eq_nil_iff, List.map_eq_nil_iff, List.replicate_eq_nil_iff]

/-- The only places without a segment. -/
theorem eq_of_segments_nil {L : Loc} (h : L.segments = []) : L = root ∨ L = here := by
  obtain ⟨hu, hn⟩ := (segments_eq_nil_iff L).mp h
  cases hr : L.rooted
  · exact Or.inr (Loc.ext hr hu hn)
  · exact Or.inl (Loc.ext hr hu hn)

theorem segments_enter (D : Loc) (ns : List Name) :
    (D.enter ns).segments = D.segments ++ ns.map Subtype.val := by
  simp only [segments, enter_ups, enter_names, List.map_append, List.append_assoc]

/-- The shortest text of a place. -/
def render (L : Loc) : Text :=
  if L.rooted then '/' :: ['/'].intercalate L.segments
  else if L.segments = [] then ['.'] else ['/'].intercalate L.segments

end Loc

open Loc

/-- Where a path's walk starts. -/
def start (p : Text) : Loc := if p.head? = some '/' then root else here

/-- The place a path names. -/
def locate (p : Text) : Loc := (start p).walk (moves p)

/-- `filepath.Clean`. -/
def clean (p : Text) : Text := (locate p).render

/-- `filepath.Join`: the elements from the first non-empty one on, cleaned. -/
def join : List Text → Text
  | [] => []
  | [] :: es => join es
  | e :: es => clean (['/'].intercalate (e :: es))

/-- `filepath.Split`: the text up to the last slash, and the text after it. -/
def split (p : Text) : Text × Text := (p.rdropWhile (· ≠ '/'), p.rtakeWhile (· ≠ '/'))

/-- `filepath.Dir`. -/
def dir (p : Text) : Text := clean (split p).1

/-- `filepath.Base`. -/
def base (p : Text) : Text :=
  if p = [] then ['.']
  else if (p.rdropWhile (· = '/')).rtakeWhile (· ≠ '/') = [] then ['/']
  else (p.rdropWhile (· = '/')).rtakeWhile (· ≠ '/')

@[simp] theorem move_name (n : Name) : move n.val = .into n := by
  simp [move, n.property]

@[simp] theorem move_dotdot : move dotdot = .up := by decide

@[simp] theorem moves_nil : moves [] = [.stay] := by decide

theorem moves_append_slash (a b : Text) : moves (a ++ '/' :: b) = moves a ++ moves b := by
  simp [moves, List.splitOn_append_cons_self]

theorem moves_of_noSlash {s : Text} (h : '/' ∉ s) : moves s = [move s] := by
  simp [moves, List.splitOn_eq_singleton h]

theorem moves_intercalate {ss : List Text} (h : ∀ s ∈ ss, '/' ∉ s) (hne : ss ≠ []) :
    moves (['/'].intercalate ss) = ss.map move := by
  rw [moves, List.splitOn_intercalate '/' h hne]

theorem mem_segments_noSlash (L : Loc) : ∀ s ∈ L.segments, '/' ∉ s := by
  intro s hs
  simp only [segments, List.mem_append, List.mem_replicate, List.mem_map] at hs
  rcases hs with ⟨-, rfl⟩ | ⟨n, -, rfl⟩
  · decide
  · exact n.property.2.2.2

theorem map_move_segments (L : Loc) :
    L.segments.map move = List.replicate L.ups .up ++ L.names.map .into := by
  rw [segments, List.map_append, List.map_replicate, move_dotdot, List.map_map]
  exact congrArg _ (List.map_congr_left fun n _ => move_name n)

theorem walk_intercalate (D L : Loc) :
    D.walk (moves (['/'].intercalate L.segments)) = (D.climb L.ups).enter L.names := by
  by_cases hs : L.segments = []
  · obtain ⟨hu, hn⟩ := (segments_eq_nil_iff L).mp hs
    rw [hs, hu, hn]
    simp
  · calc D.walk (moves (['/'].intercalate L.segments))
        = D.walk (List.replicate L.ups .up ++ L.names.map .into) := by
          rw [moves_intercalate (mem_segments_noSlash L) hs, map_move_segments]
      _ = (D.climb L.ups).enter L.names := by rw [walk_append, walk_up, walk_into]

/-- A walk along a place's text climbs and enters what the place says. -/
theorem walk_moves_render (D L : Loc) : D.walk (moves L.render) = (D.climb L.ups).enter L.names := by
  unfold render
  split
  · rw [show ('/' :: ['/'].intercalate L.segments) = [] ++ '/' :: ['/'].intercalate L.segments from rfl,
      moves_append_slash, walk_append, walk_intercalate]
    rfl
  · split
    · rename_i hs
      have h := walk_intercalate D L
      rw [hs] at h
      rw [← h]
      rfl
    · exact walk_intercalate D L

theorem mem_segments_ne_nil (L : Loc) : ∀ s ∈ L.segments, s ≠ [] := by
  intro s hs
  simp only [segments, List.mem_append, List.mem_replicate, List.mem_map] at hs
  rcases hs with ⟨-, rfl⟩ | ⟨n, -, rfl⟩
  · decide
  · exact n.property.1

theorem segments_head (L : Loc) (s : Text) (ss : List Text) (h : L.segments = s :: ss) :
    ∃ c t, s = c :: t ∧ c ≠ '/' := by
  have hm : s ∈ L.segments := by rw [h]; exact List.mem_cons_self
  have hslash := mem_segments_noSlash L s hm
  obtain ⟨c, t, rfl⟩ := List.exists_cons_of_ne_nil (mem_segments_ne_nil L s hm)
  exact ⟨c, t, rfl, fun hc => hslash (by rw [hc]; exact List.mem_cons_self)⟩

theorem start_of_noSlash {s : Text} (h : '/' ∉ s) : start s = here := by
  refine if_neg fun hh => h ?_
  obtain ⟨t, rfl⟩ := List.head?_eq_some_iff.mp hh
  exact List.mem_cons_self

theorem start_append {a : Text} (h : a ≠ []) (b : Text) : start (a ++ b) = start a := by
  obtain ⟨c, t, rfl⟩ := List.exists_cons_of_ne_nil h
  rfl

theorem start_rooted (p : Text) : (start p).rooted = true ↔ p.head? = some '/' := by
  unfold start
  split <;> simp_all [root, here]

theorem start_render (L : Loc) : start L.render = if L.rooted then root else here := by
  unfold start render
  by_cases hr : L.rooted = true
  · simp [hr]
  · simp only [hr, Bool.false_eq_true, if_false]
    cases hs : L.segments with
    | nil => simp
    | cons s ss =>
      obtain ⟨c, t, rfl, hc⟩ := segments_head L s ss hs
      cases ss with
      | nil => simp [hc]
      | cons s' ss => simp [List.intercalate_cons_cons, hc]

/-- The shortest text of a place names it. -/
@[simp] theorem locate_render (L : Loc) : locate L.render = L := by
  unfold locate
  rw [start_render, walk_moves_render]
  by_cases hr : L.rooted = true
  · rw [if_pos hr]
    ext1
    · simp [root, hr]
    · simp [root, L.rooted_ups hr]
    · simp [root]
  · rw [if_neg hr]
    ext1
    · simpa [here] using hr
    · simp [climb_ups, here]
    · simp [here]

@[simp] theorem locate_clean (p : Text) : locate (clean p) = locate p := locate_render _

theorem render_head (L : Loc) : L.render.head? = some '/' ↔ L.rooted = true := by
  rw [← start_rooted, start_render]
  cases L.rooted <;> simp [root, here]

theorem render_inj {L M : Loc} (h : L.render = M.render) : L = M := by
  rw [← locate_render L, h, locate_render]

theorem render_ne_nil (L : Loc) : L.render ≠ [] := by
  unfold render
  split
  · exact List.cons_ne_nil _ _
  split
  · exact List.cons_ne_nil _ _
  rename_i hs
  obtain ⟨s, ss, hss⟩ := List.exists_cons_of_ne_nil hs
  obtain ⟨c, t, rfl, -⟩ := segments_head L s ss hss
  rw [hss]
  cases ss <;> simp [List.intercalate_cons_cons]

/-- A list of names as a relative path. -/
def relative (ns : List Name) : Text := ['/'].intercalate (ns.map Subtype.val)

theorem relative_singleton (n : Name) : relative [n] = n.val := by
  rw [relative, List.map_singleton, List.intercalate_singleton]

theorem relative_cons (n : Name) {ns : List Name} (h : ns ≠ []) :
    relative (n :: ns) = n.val ++ '/' :: relative ns := by
  obtain ⟨m, ns, rfl⟩ := List.exists_cons_of_ne_nil h
  rw [relative, List.map_cons, List.map_cons, List.intercalate_cons_cons, List.append_assoc]
  rfl

theorem moves_relative {ns : List Name} (h : ns ≠ []) : moves (relative ns) = ns.map .into := by
  rw [relative, moves_intercalate _ (by simpa only [ne_eq, List.map_eq_nil_iff] using h), List.map_map]
  · exact List.map_congr_left fun n _ => move_name n
  · intro s hs
    obtain ⟨n, -, rfl⟩ := List.mem_map.mp hs
    exact n.property.2.2.2

theorem intercalate_append {ss ts : List Text} (hs : ss ≠ []) (ht : ts ≠ []) :
    ['/'].intercalate (ss ++ ts) = ['/'].intercalate ss ++ '/' :: ['/'].intercalate ts := by
  induction ss with
  | nil => exact absurd rfl hs
  | cons s ss ih =>
    by_cases h : ss = []
    · subst h
      rw [List.singleton_append, List.intercalate_cons_of_ne_nil ht, List.intercalate_singleton,
        List.append_assoc]
      rfl
    · rw [List.cons_append, List.intercalate_cons_of_ne_nil (by simp [h]), ih h,
        List.intercalate_cons_of_ne_nil h]
      simp

theorem render_root_enter (ns : List Name) : (root.enter ns).render = '/' :: relative ns := by
  rw [render, if_pos (by rfl), segments_enter]
  rfl

theorem render_here_enter {ns : List Name} (h : ns ≠ []) : (here.enter ns).render = relative ns := by
  have hm : here.segments ++ ns.map Subtype.val ≠ [] := by
    simpa only [here, segments, List.replicate_zero, List.map_nil, List.append_nil, List.nil_append, ne_eq,
      List.map_eq_nil_iff] using h
  rw [render, if_neg (by simp [here]), segments_enter, if_neg hm]
  rfl

/-- The text of a place below another one. -/
theorem render_enter {D : Loc} (hD : D.segments ≠ []) {ns : List Name} (h : ns ≠ []) :
    (D.enter ns).render = D.render ++ '/' :: relative ns := by
  have hm : ns.map Subtype.val ≠ [] := by simpa only [ne_eq, List.map_eq_nil_iff] using h
  have hs : D.segments ++ ns.map Subtype.val ≠ [] := by
    simp only [ne_eq, List.append_eq_nil_iff, hD, false_and, not_false_eq_true]
  unfold render
  simp only [enter_rooted, segments_enter, if_neg hD, if_neg hs, intercalate_append hD hm, relative]
  split <;> rfl

theorem moves_intercalate_cons (e : Text) (es : List Text) :
    moves (['/'].intercalate (e :: es)) = (e :: es).flatMap moves := by
  induction es generalizing e with
  | nil => simp
  | cons e' es ih =>
    rw [List.intercalate_cons_cons, List.append_assoc, List.singleton_append, moves_append_slash, ih]
    rfl

theorem join_cons {e : Text} (h : e ≠ []) (es : List Text) :
    join (e :: es) = clean (['/'].intercalate (e :: es)) := by
  obtain ⟨c, t, rfl⟩ := List.exists_cons_of_ne_nil h
  rw [join]
  exact List.cons_ne_nil c t

/-- `Join` walks along all its elements, from where the first text starts. -/
theorem locate_join (es : List Text) : locate (join es) = (start es.flatten).walk (es.flatMap moves) := by
  induction es with
  | nil => rfl
  | cons e es ih =>
    by_cases he : e = []
    · subst he
      rw [join, ih, List.flatMap_cons, moves_nil, walk_append, walk_stay]
      rfl
    · obtain ⟨c, t, rfl⟩ := List.exists_cons_of_ne_nil he
      rw [join_cons he, locate_clean, locate, moves_intercalate_cons]
      congr 1
      cases es <;> simp [start, List.intercalate_cons_cons]

theorem join_eq_render {e : Text} (h : e ≠ []) (es : List Text) :
    join (e :: es) = ((locate e).walk (es.flatMap moves)).render := by
  have hl := locate_join (e :: es)
  obtain ⟨c, t, rfl⟩ := List.exists_cons_of_ne_nil h
  rw [join_cons h, locate_clean] at hl
  rw [join_cons h, clean, hl, locate, List.flatMap_cons, walk_append]
  rfl

theorem locate_join_of_ne_nil {e : Text} (h : e ≠ []) (es : List Text) :
    locate (join (e :: es)) = (locate e).walk (es.flatMap moves) := by
  rw [join_eq_render h, locate_render]

/-- What has to hold of `dir` and the start of the text joined to it: a joined
text is relative to `dir`, unless `dir` is empty and the text absolute. -/
def Anchored (dir s : Text) : Prop := dir = [] → s.head? ≠ some '/'

instance (dir s : Text) : Decidable (Anchored dir s) := by unfold Anchored; infer_instance

/-- Where a joined path lies, in terms of its first element. -/
theorem locate_join_cons (dir : Text) (es : List Text) (h : Anchored dir es.flatten) :
    locate (join (dir :: es)) = (locate dir).walk (es.flatMap moves) := by
  by_cases hd : dir = []
  · subst hd
    have hs : start es.flatten = here := if_neg (h rfl)
    rw [locate_join, List.flatten_cons, List.nil_append, hs]
    rfl
  · exact locate_join_of_ne_nil hd es

theorem not_beneath_of_not_anchored {dir : Text} {es : List Text} (h : ¬ Anchored dir es.flatten) :
    ¬ (locate (join (dir :: es))).Beneath (locate dir) := by
  obtain ⟨rfl, hs⟩ : dir = [] ∧ es.flatten.head? = some '/' := by
    simpa [Anchored] using h
  rintro ⟨ns, hb⟩
  have hr := congrArg Loc.rooted hb
  rw [locate_join, walk_rooted] at hr
  simp [start, hs, root, locate, here] at hr

/-- **Confinement of a join.** -/
theorem beneath_join_iff (dir : Text) (es : List Text) :
    (locate (join (dir :: es))).Beneath (locate dir) ↔ Anchored dir es.flatten ∧
      Returns (locate dir) (here.walk (es.flatMap moves)).ups (here.walk (es.flatMap moves)).names := by
  by_cases h : Anchored dir es.flatten
  · rw [locate_join_cons dir es h, beneath_walk_iff]
    simp [h]
  · simp [h, not_beneath_of_not_anchored h]

theorem strictlyBeneath_join_iff (dir : Text) (es : List Text) :
    (locate (join (dir :: es))).StrictlyBeneath (locate dir) ↔ Anchored dir es.flatten ∧
      Returns (locate dir) (here.walk (es.flatMap moves)).ups (here.walk (es.flatMap moves)).names ∧
      (here.walk (es.flatMap moves)).names ≠ (locate dir).names.drop
        ((locate dir).names.length - (here.walk (es.flatMap moves)).ups) := by
  by_cases h : Anchored dir es.flatten
  · rw [locate_join_cons dir es h, strictlyBeneath_walk_iff]
    simp [h]
  · constructor
    · exact fun hb => absurd hb.beneath (not_beneath_of_not_anchored h)
    · exact fun hb => absurd hb.1 h

theorem split_of_noSlash {f : Text} (h : '/' ∉ f) : split f = ([], f) := by
  have hall : ∀ x ∈ f, decide (x ≠ '/') = true := fun x hx => by
    simpa using fun he : x = '/' => h (he ▸ hx)
  rw [split, List.rdropWhile_eq_nil_iff.mpr hall, List.rtakeWhile_eq_self_iff.mpr hall]

theorem split_append_slash (d : Text) {f : Text} (h : '/' ∉ f) :
    split (d ++ '/' :: f) = (d ++ ['/'], f) := by
  induction f using List.reverseRecOn with
  | nil => simp [split]
  | append_singleton f c ih =>
    have hc : c ≠ '/' := by rintro rfl; exact h (by simp)
    have ih := ih fun hm => h (by simp [hm])
    simp only [split, Prod.mk.injEq] at ih ⊢
    rw [show d ++ '/' :: (f ++ [c]) = (d ++ '/' :: f) ++ [c] by simp, List.rdropWhile_concat,
      List.rtakeWhile_concat, ih.1, ih.2]
    simp [hc]

/-- Nothing is lost by `Split`. -/
theorem split_append (p : Text) : (split p).1 ++ (split p).2 = p := List.rdropWhile_append_rtakeWhile

/-- A path has no slash, or is a part up to its last slash and a part after. -/
theorem split_cases (p : Text) : '/' ∉ p ∨ ∃ d f, '/' ∉ f ∧ p = d ++ '/' :: f := by
  induction p using List.reverseRecOn with
  | nil => left; simp
  | append_singleton p c ih =>
    by_cases hc : c = '/'
    · right; exact ⟨p, [], by simp, by rw [hc]⟩
    · rcases ih with h | ⟨d, f, hf, rfl⟩
      · left; simp [h, Ne.symm hc]
      · right; exact ⟨d, f ++ [c], by simp [hf, Ne.symm hc], by simp⟩

/-- A path walks to its last slash, and on along what comes after. -/
theorem locate_append_slash (d f : Text) : locate (d ++ '/' :: f) = (locate (d ++ ['/'])).walk (moves f) := by
  have hne : d ++ ['/'] ≠ [] := by simp
  have hs : start (d ++ '/' :: f) = start (d ++ ['/']) := by
    rw [show d ++ '/' :: f = (d ++ ['/']) ++ f by simp, start_append hne]
  calc locate (d ++ '/' :: f) = (start (d ++ ['/'])).walk (moves d ++ moves f) := by
        rw [locate, hs, moves_append_slash]
    _ = ((start (d ++ ['/'])).walk (moves d)).walk (moves f) := walk_append _ _ _
    _ = (locate (d ++ ['/'])).walk (moves f) := by
        rw [locate, moves_append_slash, moves_nil, walk_append, walk_stay]

/-- What `Split` takes apart `Join` puts together again. -/
theorem join_split (p : Text) : join [(split p).1, (split p).2] = join [p] := by
  rcases split_cases p with h | ⟨d, f, hf, rfl⟩
  · rw [split_of_noSlash h]
    rfl
  · have hne : d ++ ['/'] ≠ [] := by simp
    have hne' : d ++ '/' :: f ≠ [] := by simp
    calc join [(split (d ++ '/' :: f)).1, (split (d ++ '/' :: f)).2] = join [d ++ ['/'], f] := by
          rw [split_append_slash d hf]
      _ = ((locate (d ++ ['/'])).walk (moves f)).render := by
          rw [join_eq_render hne, List.flatMap_singleton]
      _ = (locate (d ++ '/' :: f)).render := by rw [← locate_append_slash]
      _ = join [d ++ '/' :: f] := (join_eq_render hne' []).symm

/-! ### Cleaned relative paths -/

/-- A cleaned relative path. -/
@[ext] structure RelPath where
  text : Text
  cleaned : clean text = text
  relative : text.head? ≠ some '/'

namespace RelPath

variable (p : RelPath)

theorem eq_render : p.text = (locate p.text).render := p.cleaned.symm

theorem ne_nil : p.text ≠ [] := by
  rw [eq_render]
  exact render_ne_nil _

theorem locate_rooted : (locate p.text).rooted = false := by
  rw [locate, walk_rooted, start, if_neg p.relative]
  rfl

theorem join_text : join [p.text] = p.text := by
  rw [join_eq_render p.ne_nil]
  exact p.cleaned

/-- A cleaned path is the only one for its place. -/
theorem locate_inj {p q : RelPath} : locate p.text = locate q.text ↔ p = q := by
  constructor
  · intro h
    ext1
    rw [p.eq_render, q.eq_render, h]
  · rintro rfl
    rfl

theorem walk_moves (D : Loc) :
    D.walk (moves p.text) = (D.climb (locate p.text).ups).enter (locate p.text).names := by
  conv_lhs => rw [p.eq_render]
  exact walk_moves_render _ _

/-- Joined to a directory it leads as far up, and then down the same names, as it says. -/
theorem locate_join (dir : Text) :
    locate (join [dir, p.text]) = ((locate dir).climb (locate p.text).ups).enter (locate p.text).names := by
  have ha : Anchored dir [p.text].flatten := fun _ => by
    rw [List.flatten_singleton]
    exact p.relative
  rw [locate_join_cons dir _ ha, List.flatMap_singleton, p.walk_moves]

/-- Paths that climb equally far are told apart below every directory. -/
theorem join_inj (dir : Text) {p q : RelPath} :
    (locate p.text).ups = (locate q.text).ups ∧ join [dir, p.text] = join [dir, q.text] ↔ p = q := by
  constructor
  · rintro ⟨hu, hj⟩
    have hl := congrArg locate hj
    rw [p.locate_join, q.locate_join, hu, enter_inj] at hl
    exact locate_inj.mp (Loc.ext (by rw [p.locate_rooted, q.locate_rooted]) hu hl)
  · rintro rfl
    exact ⟨rfl, rfl⟩

/-- No segment of it is empty. -/
theorem segment_ne_nil {s : Text} (h : s ∈ p.text.splitOn '/') : s ≠ [] := by
  rw [p.eq_render, render, if_neg (by simp [p.locate_rooted])] at h
  split at h
  · rw [List.mem_singleton.mp h]
    exact List.cons_ne_nil _ _
  · rename_i hs
    rw [List.splitOn_intercalate '/' (mem_segments_noSlash _) hs] at h
    exact mem_segments_ne_nil _ s h

/-- It does not end in a slash. -/
theorem split_snd_ne_nil : (split p.text).2 ≠ [] := by
  apply p.segment_ne_nil
  rcases split_cases p.text with hp | ⟨d, f, hf, hp⟩
  · rw [split_of_noSlash hp, List.splitOn_eq_singleton hp]
    exact List.mem_singleton_self _
  · rw [hp, split_append_slash d hf, List.splitOn_append_cons_self, List.splitOn_eq_singleton hf]
    exact List.mem_append_right _ (List.mem_singleton_self _)

/-- The shortest text of a place that is not below the root. -/
def ofLoc (L : Loc) (h : L.rooted = false) : RelPath where
  text := L.render
  cleaned := by rw [clean, locate_render]
  relative := by simp [render_head, h]

end RelPath

/-! ### A last name -/

theorem join_name {p : Text} (hp : p ≠ []) (n : Name) : join [p, n.val] = ((locate p).enter [n]).render := by
  rw [join_eq_render hp, List.flatMap_singleton, moves_of_noSlash n.property.2.2.2, move_name]
  rfl

/-- The directory of an entry is the place it is in. -/
theorem dir_render_enter (D : Loc) (n : Name) : dir (D.enter [n]).render = D.render := by
  have hn := n.property.2.2.2
  have hc := List.cons_ne_nil n []
  by_cases hs : D.segments = []
  · rcases eq_of_segments_nil hs with rfl | rfl
    · rw [render_root_enter, relative_singleton, dir]
      exact congrArg (fun p => clean p.1) (split_append_slash [] hn)
    · rw [render_here_enter hc, relative_singleton, dir, split_of_noSlash hn]
      rfl
  · have hl : locate (D.render ++ ['/']) = D := by
      rw [locate, start_append (render_ne_nil D), moves_append_slash, walk_append, moves_nil, walk_stay]
      exact locate_render D
    calc dir (D.enter [n]).render = dir (D.render ++ '/' :: n.val) := by
          rw [render_enter hs hc, relative_singleton]
      _ = clean (D.render ++ ['/']) := by rw [dir, split_append_slash _ hn]
      _ = D.render := by rw [clean, hl]

theorem rdropWhile_slash {d f : Text} (h : '/' ∉ f) (hne : f ≠ []) :
    (d ++ f).rdropWhile (· = '/') = d ++ f := by
  rw [List.rdropWhile_eq_self_iff]
  intro hl he
  rw [List.getLast_append_of_ne_nil hl hne] at he
  exact h (of_decide_eq_true he ▸ List.getLast_mem hne)

theorem base_of_noSlash {f : Text} (h : '/' ∉ f) (hne : f ≠ []) : base f = f := by
  have hd := rdropWhile_slash (d := []) h hne
  have hs := congrArg Prod.snd (split_of_noSlash h)
  simp only [split, List.nil_append] at hs hd
  rw [base, if_neg hne, hd, hs, if_neg hne]

theorem base_append_slash (d : Text) {f : Text} (h : '/' ∉ f) (hne : f ≠ []) : base (d ++ '/' :: f) = f := by
  have hd := rdropWhile_slash (d := d ++ ['/']) h hne
  have hs := congrArg Prod.snd (split_append_slash d h)
  simp only [split, List.append_assoc, List.singleton_append] at hs hd
  rw [base, if_neg (by simp), hd, hs, if_neg hne]

/-- A suffix without a slash lies in the last segment. -/
theorem suffix_of_append_slash {e a b : Text} (he : '/' ∉ e) (h : e <:+ a ++ '/' :: b) : e <:+ b := by
  rcases List.suffix_or_suffix_of_suffix h (List.suffix_append a ('/' :: b)) with h | h
  · rcases List.suffix_cons_iff.mp h with rfl | h
    · exact absurd List.mem_cons_self he
    · exact h
  · exact absurd (h.subset List.mem_cons_self) he

/-- A base name ends as the path does. -/
theorem suffix_base {e p : Text} (he : '/' ∉ e) (hne : e ≠ []) (h : e <:+ p) : e <:+ base p ∧ '/' ∉ base p := by
  rcases split_cases p with hp | ⟨d, f, hf, rfl⟩
  · have hpe : p ≠ [] := by
      rintro rfl
      exact hne (List.suffix_nil.mp h)
    rw [base_of_noSlash hp hpe]
    exact ⟨h, hp⟩
  · have hs := suffix_of_append_slash he h
    have hfe : f ≠ [] := by
      rintro rfl
      exact hne (List.suffix_nil.mp hs)
    rw [base_append_slash d hf hfe]
    exact ⟨hs, hf⟩

/-- A text of three characters or more that has no slash is a name. -/
theorem isName_of_length {s : Text} (h : '/' ∉ s) (hl : 3 ≤ s.length) : IsName s := by
  refine ⟨?_, ?_, ?_, h⟩ <;> rintro rfl <;> simp at hl

end Go
