/-
# The manifest in the game client

`SYSC` of `public/ioquake3.js`. The client asks a content server for its manifest
and keeps it in variables of the console, a word for each entry: its name, its
checksum and its size, with `@` between them (`UpdateManifest`). Whatever it
downloads, it first takes that text apart again (`GetManifest`). What comes out is
what was put in if and only if no name has a blank or an `@` (`getManifest_iff`).

`DirtyInstallers` looks up each installer in the manifest, in a variable that is not
reset: an installer that is not there gets the asset of the one before
(`dirtyInstallers_iff`).

Key definitions: `formatManifestString`, `getManifest`, `activePaks`, `dirtyInstallers`.
Key theorems: `getManifest_iff`, `dirtyInstallers_iff`.
-/
import QuakeKube.Content.GameClient
import QuakeKube.Content.Listing

namespace QuakeKube
namespace Browser

open Go Json

/-! ### An entry as a word -/

/-- An entry of the manifest; `none` is `NaN`. -/
structure Asset where
  name : Text
  checksum : Option ℤ
  compressed : Option ℤ
deriving DecidableEq

/-- `String` of a number that is whole or `NaN`. -/
def numberText : Option ℤ → Text
  | none => txt "NaN"
  | some z => intText z

def entryText (a : Asset) : Text := a.name ++ '@' :: (numberText a.checksum ++ '@' :: numberText a.compressed)

/-- `formatManifestString`. -/
def formatManifestString (manifest : List Asset) : Text := joinText [' '] (manifest.map entryText)

def isWhite (c : Char) : Bool :=
  c ∈ [' ', '\t', '\n', '\r', '\x0b', '\x0c', '\u00a0', '\ufeff', '\u2028', '\u2029']

/-- The digits at the beginning; without any, `NaN`. -/
def leadingDigits (s : Text) : Option ℕ := parseNat (s.takeWhile Char.isDigit)

/-- `parseInt(s, 10)`. -/
def parseInt (s : Text) : Option ℤ :=
  match s.dropWhile isWhite with
  | '-' :: r => (leadingDigits r).map fun n => -(n : ℤ)
  | '+' :: r => (leadingDigits r).map fun n => (n : ℤ)
  | r => (leadingDigits r).map fun n => (n : ℤ)

/-- What `GetManifest` makes of a word. What is missing is undefined, and no number. -/
def readEntry (entry : Text) : Asset :=
  let split := entry.splitOn '@'
  ⟨split.headD [], split[1]?.bind parseInt, split[2]?.bind parseInt⟩

/-- `GetManifest`. -/
def getManifest (manifest : Text) : List Asset :=
  if manifest = [] then [] else (manifest.splitOn ' ').map readEntry

theorem leadingDigits_natText (n : ℕ) : leadingDigits (natText n) = some n := by
  have hall : (natText n).takeWhile Char.isDigit = natText n :=
    List.takeWhile_eq_self_iff.mpr fun c hc => isDigit_of_mem_natText hc
  rw [leadingDigits, hall, parseNat_natText]

theorem parseInt_intText (z : ℤ) : parseInt (intText z) = some z := by
  have hwhite : ∀ {c : Char}, c.isDigit = true ∨ c = '-' → isWhite c = false := by
    rintro c (hd | rfl)
    · have hrange := isDigit_range hd
      rw [isWhite, decide_eq_false_iff_not]
      intro hc
      have hne : ∀ d ∈ [' ', '\t', '\n', '\r', '\x0b', '\x0c', '\u00a0', '\ufeff', '\u2028', '\u2029'],
        d.toNat < 0x30 ∨ 0x39 < d.toNat := by decide
      rcases hne c hc with h | h <;> omega
    · decide
  cases z with
  | ofNat n =>
    obtain ⟨c, t, hn⟩ := List.exists_cons_of_ne_nil (natText_ne_nil n)
    have hd : c.isDigit = true := isDigit_of_mem_natText (hn ▸ List.mem_cons_self)
    have hdrop : (natText n).dropWhile isWhite = natText n := by
      rw [hn, List.dropWhile_cons_of_neg (by rw [hwhite (.inl hd)]; exact Bool.false_ne_true)]
    have hminus : c ≠ '-' := ne_of_test hd rfl
    have hplus : c ≠ '+' := ne_of_test hd rfl
    show parseInt (natText n) = _
    rw [parseInt, hdrop]
    split
    · exact absurd (List.cons.inj (hn.symm.trans ‹_›)).1 hminus
    · exact absurd (List.cons.inj (hn.symm.trans ‹_›)).1 hplus
    · rw [leadingDigits_natText]
      rfl
  | negSucc n =>
    have hdrop : ('-' :: natText (n + 1)).dropWhile isWhite = '-' :: natText (n + 1) :=
      List.dropWhile_cons_of_neg (by decide)
    show parseInt ('-' :: natText (n + 1)) = _
    rw [parseInt, hdrop]
    show (leadingDigits (natText (n + 1))).map (fun n => -(n : ℤ)) = _
    rw [leadingDigits_natText]
    rfl

theorem parseInt_numberText (o : Option ℤ) : parseInt (numberText o) = o := by
  cases o with
  | none => with_unfolding_all decide
  | some z => exact parseInt_intText z

/-- A number has neither of the two characters that end something. -/
theorem numberText_not_mem {c : Char} (hc : c ∈ [' ', '@']) (o : Option ℤ) : c ∉ numberText o := by
  have hnan : ' ' ∉ txt "NaN" ∧ '@' ∉ txt "NaN" := by with_unfolding_all decide
  have htest : c.isDigit = false ∧ c ≠ '-' := by
    have hall : ∀ c ∈ [' ', '@'], c.isDigit = false ∧ c ≠ '-' := by decide
    exact hall c hc
  cases o with
  | none =>
    rcases List.mem_cons.mp hc with rfl | hc
    · exact hnan.1
    · rw [List.mem_singleton.mp hc]
      exact hnan.2
  | some z =>
    intro h
    rcases isDigit_of_mem_intText h with hd | hd
    · exact Bool.false_ne_true (htest.1.symm.trans hd)
    · exact htest.2 hd

/-- A part has characters of the text, but not the one at which it is split. -/
theorem mem_of_mem_splitOn {c d : Char} {s t : Text} (h : t ∈ s.splitOn c) (hd : d ∈ t) : d ∈ s ∧ d ≠ c := by
  induction s generalizing t with
  | nil =>
    rw [List.splitOn_nil, List.mem_singleton] at h
    exact absurd (h ▸ hd) List.not_mem_nil
  | cons e s ih =>
    obtain ⟨l, ls, hs⟩ := List.exists_cons_of_ne_nil (List.splitOn_ne_nil c s)
    have hlater : ∀ {t : Text}, t ∈ l :: ls → d ∈ t → d ∈ e :: s ∧ d ≠ c := fun ht hd =>
      (ih (hs ▸ ht) hd).imp_left (List.mem_cons_of_mem _)
    rw [List.splitOn_cons_eq_if_modifyHead, hs] at h
    split_ifs at h with he
    · rcases List.mem_cons.mp h with rfl | h
      · exact absurd hd List.not_mem_nil
      · exact hlater h hd
    · rcases List.mem_cons.mp h with rfl | h
      · rcases List.mem_cons.mp hd with rfl | hd
        · exact ⟨List.mem_cons_self, fun hc => he (by simp [hc])⟩
        · exact hlater List.mem_cons_self hd
      · exact hlater (List.mem_cons_of_mem _ h) hd

theorem splitOn_joinText {c : Char} {ts : List Text} (h : ∀ t ∈ ts, c ∉ t) (hne : ts ≠ []) :
    (joinText [c] ts).splitOn c = ts := by
  induction ts with
  | nil => exact absurd rfl hne
  | cons t ts ih =>
    obtain ⟨ht, hts⟩ := List.forall_mem_cons.mp h
    by_cases hnil : ts = []
    · rw [hnil]
      exact List.splitOn_eq_singleton ht
    · rw [joinText_cons hnil, List.append_assoc, List.singleton_append,
        List.splitOn_append_cons_self_of_not_mem ht, ih hts hnil]

/-- A word is read as the entry it was written for. -/
theorem readEntry_entryText {a : Asset} (h : '@' ∉ a.name) : readEntry (entryText a) = a := by
  have hat : ∀ o, '@' ∉ numberText o := numberText_not_mem (by simp)
  have hsplit : (entryText a).splitOn '@' = [a.name, numberText a.checksum, numberText a.compressed] := by
    rw [entryText, List.splitOn_append_cons_self_of_not_mem h,
      List.splitOn_append_cons_self_of_not_mem (hat _),
      List.splitOn_eq_singleton (hat _)]
  have hread : readEntry (entryText a) =
      ⟨a.name, parseInt (numberText a.checksum), parseInt (numberText a.compressed)⟩ := by
    rw [readEntry, hsplit]
    rfl
  rw [hread, parseInt_numberText, parseInt_numberText]

theorem blank_not_mem_entryText {a : Asset} (h : ' ' ∉ a.name) : ' ' ∉ entryText a := by
  have hblank : ∀ o, ' ' ∉ numberText o := numberText_not_mem (by simp)
  have hat : ' ' ≠ '@' := by decide
  simp [entryText, h, hblank, hat]

/-- The name that is read has no character at which there was a cut. -/
theorem name_readEntry {s t : Text} (h : t ∈ s.splitOn ' ') :
    ' ' ∉ (readEntry t).name ∧ '@' ∉ (readEntry t).name := by
  obtain ⟨l, ls, hl⟩ := List.exists_cons_of_ne_nil (List.splitOn_ne_nil '@' t)
  have hname : (readEntry t).name = l := by
    rw [readEntry, hl]
    rfl
  have hmem : l ∈ t.splitOn '@' := by
    rw [hl]
    exact List.mem_cons_self
  rw [hname]
  exact ⟨fun hc => (mem_of_mem_splitOn h (mem_of_mem_splitOn hmem hc).1).2 rfl,
    fun hc => (mem_of_mem_splitOn hmem hc).2 rfl⟩

/-- Entries without these characters come out as they went in. -/
theorem getManifest_formatManifestString {manifest : List Asset}
    (h : ∀ a ∈ manifest, ' ' ∉ a.name ∧ '@' ∉ a.name) :
    getManifest (formatManifestString manifest) = manifest := by
  by_cases hnil : manifest = []
  · rw [hnil]
    rfl
  · have hwords : (formatManifestString manifest).splitOn ' ' = manifest.map entryText := by
      refine splitOn_joinText (fun t ht => ?_) (by simpa using hnil)
      obtain ⟨a, ha, rfl⟩ := List.mem_map.mp ht
      exact blank_not_mem_entryText (h a ha).1
    have hsome : formatManifestString manifest ≠ [] := by
      intro he
      rw [he, List.splitOn_nil] at hwords
      obtain ⟨a, as, rfl⟩ := List.exists_cons_of_ne_nil hnil
      rw [List.map_cons] at hwords
      have hword := (List.cons.inj hwords).1
      simp [entryText] at hword
    rw [getManifest, if_neg hsome, hwords, List.map_map]
    calc manifest.map (readEntry ∘ entryText) = manifest.map id :=
          List.map_congr_left fun a ha => readEntry_entryText (h a ha).2
      _ = manifest := List.map_id _

/-- **The manifest survives the console's variable** if and only if no name has a
character that ends a word or a part of one. -/
theorem getManifest_iff (manifest : List Asset) : getManifest (formatManifestString manifest) = manifest ↔
    ∀ a ∈ manifest, ' ' ∉ a.name ∧ '@' ∉ a.name := by
  refine ⟨fun h a ha => ?_, getManifest_formatManifestString⟩
  rw [← h, getManifest] at ha
  split_ifs at ha
  · exact absurd ha List.not_mem_nil
  · obtain ⟨t, ht, rfl⟩ := List.mem_map.mp ha
    exact name_readEntry ht

/-! ### The installers -/

structure Pak where
  src : Text
  dest : Text
  checksum : ℤ
deriving DecidableEq

structure Installer where
  name : Text
  offset : ℕ
  paks : List Pak
deriving DecidableEq

/-- `SYSC.installers`. -/
def installers : List Installer := [
  ⟨txt "linuxq3ademo-1.11-6.x86.gz.sh", 5468, [⟨txt "demoq3/pak0.pk3", txt "baseq3/pak0.pk3", 2483777038⟩]⟩,
  ⟨txt "linuxq3apoint-1.32b-3.x86.run", 8251, [
    ⟨txt "baseq3/pak1.pk3", txt "baseq3/pak1.pk3", 1635885364⟩,
    ⟨txt "baseq3/pak2.pk3", txt "baseq3/pak2.pk3", 2142044321⟩,
    ⟨txt "baseq3/pak3.pk3", txt "baseq3/pak3.pk3", 682311620⟩,
    ⟨txt "baseq3/pak4.pk3", txt "baseq3/pak4.pk3", 4113726565⟩,
    ⟨txt "baseq3/pak5.pk3", txt "baseq3/pak5.pk3", 590466266⟩,
    ⟨txt "baseq3/pak6.pk3", txt "baseq3/pak6.pk3", 231612509⟩,
    ⟨txt "baseq3/pak7.pk3", txt "baseq3/pak7.pk3", 3663817674⟩,
    ⟨txt "baseq3/pak8.pk3", txt "baseq3/pak8.pk3", 136401958⟩]⟩]

/-- Where the loop of `DirtyInstallers` is. The assets are objects, so that a later
installer takes the place of an earlier one in an asset both were appended to. -/
structure Found where
  /-- The variable `asset`, which is the same in every turn. -/
  asset : Option ℕ
  installer : ℕ → Option Installer
  downloads : List ℕ

section Installers

variable (assets : List Asset) (valid : Installer → Bool)

/-- The asset of an installer, by its place in the manifest. -/
def assetOf (i : Installer) : Option ℕ := assets.findIdx? fun a => a.name = i.name

def dirtyStep (s : Found) (i : Installer) : Found :=
  match (assetOf assets i).or s.asset with
  | none => s
  | some j =>
    if valid i then { s with asset := some j }
    else ⟨some j, Function.update s.installer j (some i), s.downloads ++ [j]⟩

/-- The asset at a place of the manifest. -/
def assetAt (j : ℕ) : Asset := assets.getD j ⟨[], none, none⟩

/-- `DirtyInstallers`. -/
def dirtyInstallers (is : List Installer) : List (Asset × Option Installer) :=
  let s := is.foldl (dirtyStep assets valid) ⟨none, fun _ => none, []⟩
  s.downloads.map fun j => (assetAt assets j, s.installer j)

/-- The installers of the manifest that are not there yet, each with its own asset. -/
def dirty (is : List Installer) : List (Asset × Option Installer) :=
  is.filterMap fun i => if valid i then none else (assetOf assets i).map fun j => (assetAt assets j, some i)

/-- An installer that is neither there nor in the manifest comes after one that is in
the manifest. -/
def Stale (is : List Installer) : Prop :=
  ∃ pre i post, is = pre ++ i :: post ∧ valid i = false ∧ assetOf assets i = none ∧
    ∃ k ∈ pre, assetOf assets k ≠ none

theorem assetOf_eq_some {assets : List Asset} {i : Installer} {j : ℕ} (h : assetOf assets i = some j) :
    (assetAt assets j).name = i.name := by
  obtain ⟨hlt, hname, -⟩ := List.findIdx?_eq_some_iff_getElem.mp h
  rw [assetAt, List.getD_eq_getElem?_getD, List.getElem?_eq_getElem hlt]
  exact of_decide_eq_true hname

theorem dirty_append (is is' : List Installer) :
    dirty assets valid (is ++ is') = dirty assets valid is ++ dirty assets valid is' :=
  List.filterMap_append

/-- A turn of the loop, by what the variable `asset` is then. -/
theorem dirtyStep_cases (s : Found) (i : Installer) :
    ((assetOf assets i).or s.asset = none ∧ dirtyStep assets valid s i = s) ∨
    ∃ j, (assetOf assets i).or s.asset = some j ∧
      (valid i = true ∧ dirtyStep assets valid s i = { s with asset := some j } ∨
        valid i = false ∧ dirtyStep assets valid s i =
          ⟨some j, Function.update s.installer j (some i), s.downloads ++ [j]⟩) := by
  unfold dirtyStep
  split
  · exact .inl ⟨‹_›, rfl⟩
  · rename_i j hj
    refine .inr ⟨j, hj, ?_⟩
    cases hv : valid i with
    | true => exact .inl ⟨rfl, if_pos rfl⟩
    | false => exact .inr ⟨rfl, if_neg Bool.false_ne_true⟩

/-- The variable has an asset as soon as one was found. -/
theorem asset_foldl (is : List Installer) (s : Found) : (is.foldl (dirtyStep assets valid) s).asset ≠ none ↔
    s.asset ≠ none ∨ ∃ k ∈ is, assetOf assets k ≠ none := by
  induction is generalizing s with
  | nil => simp
  | cons i is ih =>
    have hstep : (dirtyStep assets valid s i).asset ≠ none ↔ s.asset ≠ none ∨ assetOf assets i ≠ none := by
      have hor : (assetOf assets i).or s.asset ≠ none ↔ s.asset ≠ none ∨ assetOf assets i ≠ none := by
        rw [Ne, Option.or_eq_none_iff, not_and_or, or_comm]
      rw [← hor]
      rcases dirtyStep_cases assets valid s i with ⟨hnone, hs⟩ | ⟨j, hj, ⟨-, hs⟩ | ⟨-, hs⟩⟩
      · rw [hs, hnone, (Option.or_eq_none_iff.mp hnone).2]
      · simp [hs, hj]
      · simp [hs, hj]
    rw [List.foldl_cons, ih, hstep, or_assoc]
    simp

/-- Nothing that is wanted is left out. -/
theorem length_dirty_le (is : List Installer) (s : Found) :
    s.downloads.length + (dirty assets valid is).length ≤
      (is.foldl (dirtyStep assets valid) s).downloads.length := by
  induction is generalizing s with
  | nil => simp [dirty]
  | cons i is ih =>
    have hstep : s.downloads.length + (dirty assets valid [i]).length ≤
        (dirtyStep assets valid s i).downloads.length := by
      rcases dirtyStep_cases assets valid s i with ⟨hnone, hs⟩ | ⟨j, -, ⟨hv, hs⟩ | ⟨hv, hs⟩⟩
      · rw [Option.or_eq_none_iff] at hnone
        simp [hs, dirty, hnone.1]
      · simp [hs, dirty, hv]
      · have hone := List.length_filterMap_le (fun i => if valid i then none else
          (assetOf assets i).map fun j => (assetAt assets j, some i)) [i]
        rw [List.length_singleton] at hone
        rw [hs, List.length_append, List.length_singleton]
        exact Nat.add_le_add_left hone _
    have hcons : dirty assets valid (i :: is) = dirty assets valid [i] ++ dirty assets valid is :=
      dirty_append assets valid [i] is
    have hrest := ih (dirtyStep assets valid s i)
    rw [hcons, List.length_append, List.foldl_cons]
    omega

/-- An installer that gets the asset of another is one too many. -/
theorem length_dirty_lt {is : List Installer} (h : Stale assets valid is) :
    (dirty assets valid is).length < (dirtyInstallers assets valid is).length := by
  obtain ⟨pre, i, post, rfl, hv, habsent, hfound⟩ := h
  set s₀ : Found := ⟨none, fun _ => none, []⟩
  set s := pre.foldl (dirtyStep assets valid) s₀ with hs
  have hpre := length_dirty_le assets valid pre s₀
  have hasset : s.asset ≠ none := (asset_foldl assets valid pre s₀).mpr (.inr hfound)
  have hstep : (dirtyStep assets valid s i).downloads.length = s.downloads.length + 1 := by
    rcases dirtyStep_cases assets valid s i with ⟨hnone, -⟩ | ⟨j, -, ⟨hv', -⟩ | ⟨-, hd⟩⟩
    · exact absurd (Option.or_eq_none_iff.mp hnone).2 hasset
    · exact absurd (hv.symm.trans hv') Bool.false_ne_true
    · simp [hd]
  have hpost := length_dirty_le assets valid post (dirtyStep assets valid s i)
  have hone : dirty assets valid (i :: post) = dirty assets valid post := by
    simp [dirty, hv, habsent]
  rw [dirty_append, hone, List.length_append, dirtyInstallers, List.length_map, List.foldl_append,
    List.foldl_cons,
    ← hs]
  rw [← hs] at hpre
  simp only [s₀, List.length_nil] at hpre
  omega

/-- Where no installer gets the asset of another, each is appended to its own. -/
theorem dirtyInstallers_of_not_stale {is : List Installer} (hnd : (is.map Installer.name).Nodup)
    (h : ¬ Stale assets valid is) : dirtyInstallers assets valid is = dirty assets valid is ∧
      ∀ j ∈ (is.foldl (dirtyStep assets valid) ⟨none, fun _ => none, []⟩).downloads,
        ∃ k ∈ is, assetOf assets k = some j := by
  induction is using List.reverseRecOn with
  | nil => exact ⟨rfl, by simp⟩
  | append_singleton is i ih =>
    rw [List.map_append, List.map_singleton, List.nodup_append] at hnd
    obtain ⟨hnd, -, hnew⟩ := hnd
    obtain ⟨heq, hown⟩ := ih hnd fun ⟨pre, k, post, he, hk⟩ => h ⟨pre, k, post ++ [i], by simp [he], hk⟩
    set s := is.foldl (dirtyStep assets valid) ⟨none, fun _ => none, []⟩ with hs
    have hlist : s.downloads.map (fun j => (assetAt assets j, s.installer j)) = dirty assets valid is := heq
    have hown' : ∀ j ∈ s.downloads, ∃ k ∈ is ++ [i], assetOf assets k = some j := fun j hj =>
      (hown j hj).imp fun _ hk => ⟨List.mem_append_left _ hk.1, hk.2⟩
    rw [dirtyInstallers, dirty_append, List.foldl_append, List.foldl_cons, List.foldl_nil, ← hs]
    rcases dirtyStep_cases assets valid s i with ⟨hnone, hstep⟩ | ⟨j, hj, ⟨hv, hstep⟩ | ⟨hv, hstep⟩⟩
    · have hone : dirty assets valid [i] = [] := by simp [dirty, (Option.or_eq_none_iff.mp hnone).1]
      rw [hstep, hone, List.append_nil]
      exact ⟨hlist, hown'⟩
    · have hone : dirty assets valid [i] = [] := by simp [dirty, hv]
      rw [hstep, hone, List.append_nil]
      exact ⟨hlist, hown'⟩
    · -- the asset is its own, since otherwise one was found before
      have hi : assetOf assets i = some j := by
        cases hi : assetOf assets i with
        | some k => simpa [hi] using hj
        | none =>
          have hsome : s.asset ≠ none := by
            rw [hi, Option.none_or] at hj
            simp [hj]
          have hfound := ((asset_foldl assets valid is _).mp hsome).resolve_left (by simp)
          exact absurd ⟨is, i, [], rfl, hv, hi, hfound⟩ h
      have hone : dirty assets valid [i] = [(assetAt assets j, some i)] := by simp [dirty, hv, hi]
      have hkept : ∀ j' ∈ s.downloads, Function.update s.installer j (some i) j' = s.installer j' := by
        intro j' hj'
        refine Function.update_of_ne ?_ _ _
        rintro rfl
        obtain ⟨k, hk, hkj⟩ := hown j' hj'
        exact hnew _ (List.mem_map_of_mem hk) _ (List.mem_singleton_self _)
          ((assetOf_eq_some hkj).symm.trans (assetOf_eq_some hi))
      rw [hstep, hone]
      refine ⟨?_, fun j' hj' => ?_⟩
      · rw [List.map_append, ← hlist, List.map_singleton]
        dsimp only
        rw [Function.update_self]
        exact congrArg (· ++ _) (List.map_congr_left fun j' hj' => by rw [hkept j' hj'])
      · rcases List.mem_append.mp hj' with hj' | hj'
        · exact hown' j' hj'
        · exact ⟨i, by simp, by rw [hi, List.mem_singleton.mp hj']⟩

variable {assets valid}

/-- **The installers that are downloaded are those that are wanted**, each with its
own paks, if and only if none gets the asset of another. -/
theorem dirtyInstallers_iff {is : List Installer} (hnd : (is.map Installer.name).Nodup) :
    dirtyInstallers assets valid is = dirty assets valid is ↔ ¬ Stale assets valid is := by
  refine ⟨fun h hs => ?_, fun h => (dirtyInstallers_of_not_stale assets valid hnd h).1⟩
  have hlt := length_dirty_lt assets valid hs
  rw [h] at hlt
  exact lt_irrefl _ hlt

/-- The two installers, of which the manifest has the first only: it is downloaded a
second time for the second. -/
theorem dirtyInstallers_iff_demo :
    let manifest : List Asset := [⟨txt "linuxq3ademo-1.11-6.x86.gz.sh", some 1, some 2⟩]
    dirtyInstallers manifest (fun _ => false) installers = dirty manifest (fun _ => false) installers ↔
      ¬ Stale manifest (fun _ => false) installers :=
  dirtyInstallers_iff (by with_unfolding_all decide)

end Installers

/-! ### What the client asks for -/

/-- A property of an object, the last of its name. -/
def property (key : Text) (fields : List (Text × Value)) : Option Value :=
  (fields.reverse.find? fun f => f.1 = key).map Prod.snd

/-- An element of the manifest, if it is an object with the three properties. -/
def elementOf : Value → Option Asset
  | .object fields =>
    match property (txt "name") fields, property (txt "checksum") fields,
      property (txt "compressed") fields with
    | some (.string name), some (.number checksum), some (.number compressed) =>
      some ⟨name, Go.parseInt checksum.text, Go.parseInt compressed.text⟩
    | _, _, _ => none
  | _ => none

/-- `isInstaller`. -/
def isInstaller (name : Text) : Bool := installers.any fun i => i.name = name

/-- What `.+.pk3$` matches: the dot before the extension stands for any character. -/
def matchesPak (s : Text) : Bool :=
  hasSuffix s (txt "pk3") && 5 ≤ s.length &&
    (s.take (s.length - 3)).all fun c => !decide (Content.IsLineTerminator c)

/-- `isCommon`, for games without a character that a regular expression takes for
something else. -/
def isCommon (games : List Text) (name : Text) : Bool :=
  name.tails.any fun t => games.any fun g =>
    hasPrefix t (g ++ txt "/pak") && matchesPak (t.drop (g ++ txt "/pak").length)

/-- `isMapPak`. -/
def isMapPak (mapname name : Text) : Bool := (Go.split name).2 = mapname ++ txt ".pk3"

/-- `activePaks`. -/
def activePaks (games : List Text) (mapname : Text) (entry : Asset) : Bool :=
  isInstaller entry.name || isCommon games entry.name || isMapPak mapname entry.name

/-- How `UpdateManifest` ends: with the two variables set, with an error for its
callback, or in a handler that throws, so that the callback is never called. -/
inductive Updated
  | done (manifest completeManifest : Text)
  | failed (err : Text)
  | thrown
deriving DecidableEq

/-- `UpdateManifest`, with the answer to its request for the manifest. -/
def updateManifest (games : List Text) (mapname : Text) : Except Text Bytes → Updated
  | .error err => .failed (txt "Failed to download and parse manifest, " ++ err)
  | .ok body =>
    match Json.parse (Bytes.toText body) with
    | none => .failed (txt "Failed to download and parse manifest, ")
    | some (.array vs) =>
      match vs.mapM elementOf with
      | none => .thrown
      | some manifest =>
        .done (formatManifestString (manifest.filter (activePaks games mapname)))
          (formatManifestString manifest)
    | some _ => .thrown

/-- The entry of a file, as the client reads it. -/
def fileAsset (f : Content.File) : Asset := ⟨f.name, some f.checksum.toNat, some f.compressed⟩

theorem elementOf_json (f : Content.File) : elementOf f.json = some (fileAsset f) := by
  have hkeys : txt "name" ≠ txt "compressed" ∧ txt "name" ≠ txt "checksum" ∧
      txt "compressed" ≠ txt "checksum" := by
    with_unfolding_all decide
  obtain ⟨h1, h2, h3⟩ := hkeys
  have hname : property (txt "name")
      [(txt "name", .string f.name), (txt "compressed", .number (.nat f.compressed)),
      (txt "checksum", .number (.nat f.checksum.toNat))] = some (.string f.name) := by
    simp [property, h1.symm, h2.symm]
  have hcompressed : property (txt "compressed") [(txt "name", .string f.name),
      (txt "compressed", .number (.nat f.compressed)), (txt "checksum", .number (.nat f.checksum.toNat))] =
      some (.number (.nat f.compressed)) := by
    simp [property, h3.symm]
  have hchecksum : property (txt "checksum") [(txt "name", .string f.name),
      (txt "compressed", .number (.nat f.compressed)), (txt "checksum", .number (.nat f.checksum.toNat))] =
      some (.number (.nat f.checksum.toNat)) := by
    simp [property]
  have hint : ∀ n : ℕ, Go.parseInt (Number.nat n).text = some (n : ℤ) := fun n => Go.parseInt_intText n
  simp only [Content.File.json, elementOf, hname, hcompressed, hchecksum, hint]
  rfl

/-- **What a client makes of a server's manifest.** A server without files sends
`null`, on which the client stops. -/
theorem updateManifest_manifestBody (games : List Text) (mapname : Text) (files : List Content.File) :
    updateManifest games mapname (.ok (Content.manifestBody files)) =
      if files = [] then .thrown
      else .done (formatManifestString ((files.map fileAsset).filter (activePaks games mapname)))
        (formatManifestString (files.map fileAsset)) := by
  have hblank : ∀ c ∈ ['\n'], isSpace c = true := by decide
  have hparse : Json.parse (Bytes.toText (Content.manifestBody files)) =
      some (Content.slice Content.File.json files) := by
    rw [Content.manifestBody, Content.jsonPretty, Bytes.toText_encode, parse_render _ 0 _ hblank]
  have hmap : ∀ files : List Content.File, (files.map Content.File.json).mapM elementOf =
      some (files.map fileAsset) := by
    intro files
    induction files with
    | nil => rfl
    | cons f files ih =>
      rw [List.map_cons, List.mapM_cons, elementOf_json, ih]
      rfl
  rw [updateManifest, hparse]
  cases files with
  | nil => rfl
  | cons f files =>
    rw [if_neg (List.cons_ne_nil _ _)]
    show (match ((f :: files).map Content.File.json).mapM elementOf with
      | none => Updated.thrown
      | some manifest => .done (formatManifestString (manifest.filter (activePaks games mapname)))
        (formatManifestString manifest)) = _
    rw [hmap]

end Browser
end QuakeKube
