/-
# What a run reads of its faults

A call fails by what has been called before it. So what a run makes of the tree goes by what
goes wrong in the calls that it makes itself: faults that agree on these make the same of it
(`Own`), and whatever else could go wrong can be left out (`Faults.within`).

Key definitions: `Called`, `Own`, `Faults.within`.
Key theorems: `Own.within_eq`, `own_extractPack`.
-/
import QuakeKube.Content.Extract

namespace QuakeKube
namespace Content

open Go Loc

/-! ### Faults -/

/-- Of the calls that lead from the first ones to the last ones, `c` is the one after `before`. -/
def Called (first last before : List Call) (c : Call) : Prop := first <+: before ∧ before ++ [c] <+: last

instance (first last before : List Call) (c : Call) : Decidable (Called first last before c) := by
  unfold Called
  infer_instance

/-- Faults that are the same in each of some calls. -/
structure Faults.Agree (F F' : Faults) (first last : List Call) : Prop where
  call : ∀ before c, Called first last before c → F'.call before c = F.call before c
  stat : F'.stat = F.stat
  text : F'.text = F.text

theorem Faults.Agree.mono {F F' : Faults} {first first' last last' : List Call} (h : F.Agree F' first last)
    (hf : first <+: first') (hl : last' <+: last) : F.Agree F' first' last' :=
  ⟨fun before c hc => h.call before c ⟨hf.trans hc.1, hc.2.trans hl⟩, h.stat, h.text⟩

/-- The faults in some calls, and in no others. -/
def Faults.within (F : Faults) (first last : List Call) : Faults where
  call before c := if Called first last before c then F.call before c else none
  stat := F.stat
  text := F.text

theorem Faults.agree_within (F : Faults) (first last : List Call) : F.Agree (F.within first last) first last :=
  ⟨fun _ _ h => if_pos h, rfl, rfl⟩

/-- Where none of some calls is disturbed, nothing disturbs the like of them. -/
theorem Faults.within_call_eq_none {F : Faults} {first last before : List Call} {c : Call}
    (h : Called first last before c → F.call before c = none) :
    (F.within first last).call before c = none := by
  rw [within]
  dsimp only
  split
  · exact h ‹_›
  · rfl

/-! ### Functions that go by their own calls -/

/-- A function that adds calls, and goes by what goes wrong in these. -/
structure Own {α : Type} (m : Faults → FileSystem → α × FileSystem) : Prop where
  calls : ∀ F fs, fs.calls <+: (m F fs).2.calls
  agree : ∀ F F' fs, F.Agree F' fs.calls (m F fs).2.calls → m F' fs = m F fs

section Own

variable {α β : Type} {m m' : Faults → FileSystem → α × FileSystem}

/-- **What goes wrong elsewhere makes no difference.** -/
theorem Own.within_eq (h : Own m) (F : Faults) (fs : FileSystem) :
    m (F.within fs.calls (m F fs).2.calls) fs = m F fs :=
  h.agree F _ fs (F.agree_within _ _)

theorem Own.congr (h : Own m) (he : ∀ F fs, m' F fs = m F fs) : Own m' := by
  obtain rfl : m' = m := funext fun F => funext (he F)
  exact h

theorem own_pure (a : α) : Own fun _ fs => (a, fs) := ⟨fun _ _ => List.prefix_rfl, fun _ _ _ _ => rfl⟩

/-- One function after the other. -/
theorem Own.bind (h : Own m) {k : α → Faults → FileSystem → β × FileSystem} (hk : ∀ a, Own (k a)) :
    Own fun F fs => k (m F fs).1 F (m F fs).2 := by
  constructor
  · intro F fs
    exact (h.calls F fs).trans ((hk _).calls F _)
  · intro F F' fs ha
    have hm : m F' fs = m F fs := h.agree F F' fs (ha.mono List.prefix_rfl ((hk _).calls F _))
    rw [hm]
    exact (hk _).agree F F' _ (ha.mono (h.calls F fs) List.prefix_rfl)

/-- After an error one thing is done, and another without. -/
theorem Own.andThen {ε γ : Type} {m : Faults → FileSystem → Option ε × FileSystem}
    {n : Faults → FileSystem → γ × FileSystem} {wrong : ε → Faults → FileSystem → γ × FileSystem}
    {right : Faults → FileSystem → γ × FileSystem}
    (h : Own m) (hwrong : ∀ err, Own (wrong err)) (hright : Own right)
    (hsome : ∀ F fs err fs', m F fs = (some err, fs') → n F fs = wrong err F fs')
    (hnone : ∀ F fs fs', m F fs = (none, fs') → n F fs = right F fs') : Own n := by
  let k : Option ε → Faults → FileSystem → γ × FileSystem
    | some err => wrong err
    | none => right
  have hk : ∀ a, Own (k a) := fun a => match a with
    | some err => hwrong err
    | none => hright
  refine (h.bind hk).congr fun F fs => ?_
  rcases he : m F fs with ⟨_ | err, fs'⟩
  · exact hnone F fs fs' he
  · exact hsome F fs err fs' he

/-- Where `Stat` finds nothing, and where it does not. -/
theorem own_notExist (path : Text) (h : Own m) (h' : Own m') :
    Own fun F fs => if fs.notExist F path then m F fs else m' F fs := by
  constructor
  · intro F fs
    split
    · exact h.calls F fs
    · exact h'.calls F fs
  · intro F F' fs ha
    have hstat : fs.notExist F' path = fs.notExist F path := by
      rw [FileSystem.notExist, FileSystem.notExist, ha.stat]
    rw [hstat]
    by_cases he : fs.notExist F path = true
    · rw [if_pos he] at ha ⊢
      rw [if_pos he]
      exact h.agree F F' fs ha
    · rw [if_neg he] at ha ⊢
      rw [if_neg he]
      exact h'.agree F F' fs ha

end Own

/-! ### Calls and extractions -/

theorem own_attempt (call : Call) (whole : FileSystem → Option Node) (part : FileSystem → ℕ → Option Node) :
    Own fun F fs => fs.attempt F call (whole fs) (part fs) := by
  constructor
  · intro F fs
    rw [FileSystem.attempt_calls]
    exact List.prefix_append _ _
  · intro F F' fs ha
    rw [FileSystem.attempt_calls] at ha
    unfold FileSystem.attempt
    rw [ha.call _ _ ⟨List.prefix_rfl, List.prefix_rfl⟩, ha.text]

theorem own_mkdirAll (path : Text) : Own fun F fs => fs.mkdirAll F path := own_attempt _ _ _

theorem own_writeFile (path : Text) (data : Bytes) : Own fun F fs => fs.writeFile F path data :=
  own_attempt _ _ _

section Extraction

variable (T : LowerTable) (R : Readers)

theorem own_saveFile (filename : Text) (data : Bytes) (dir : Text) (force : Bool) :
    Own fun F => saveFile F filename data dir force := by
  refine (own_mkdirAll (Go.dir (savePath filename dir force))).andThen
    (fun err => own_pure (some (txt "failed to create directory: " ++ err)))
    (own_writeFile (savePath filename dir force) data) ?_ ?_
  · intro F fs err fs' he
    simp only [saveFile, he]
  · intro F fs fs' he
    simp only [saveFile, he]

theorem own_saveFileFromReader (f : ZipFile) (dir : Text) (force : Bool) :
    Own fun F => saveFileFromReader F f dir force := by
  rcases f with ⟨name, err | err | content⟩
  · exact own_pure _
  · exact own_pure _
  · exact own_saveFile _ _ _ _

theorem own_extractTar (dir : Text) (force : Bool) (ending : Option Text) :
    ∀ (es : List ArchiveEntry) (found : Bool), Own fun F => extractTar F dir force ending es found
  | [], found => by
    cases ending with
    | some err => exact own_pure _
    | none => exact own_pure _
  | hdr :: rest, found => by
    by_cases ht : endsInPk3 hdr.name = true
    · cases hc : hdr.content with
      | error err =>
        refine (own_pure (some (txt "failed to read file: " ++ err))).congr fun F fs => ?_
        simp only [extractTar, if_pos ht, hc]
      | ok content =>
        refine (own_saveFile (base hdr.name) content dir force).andThen
          (fun err => own_pure (some (txt "failed to save file: " ++ err)))
          (own_extractTar dir force ending rest true) ?_ ?_
        · intro F fs err fs' he
          simp only [extractTar, if_pos ht, hc, he]
        · intro F fs fs' he
          simp only [extractTar, if_pos ht, hc, he]
    · refine (own_extractTar dir force ending rest found).congr fun F fs => ?_
      rw [extractTar, if_neg ht]

theorem own_extractFromGzip (data : Bytes) (dir : Text) (force : Bool) :
    Own fun F => extractFromGzip R F data dir force := by
  unfold extractFromGzip
  split
  · exact own_pure _
  · split
    · exact own_pure _
    · exact own_extractTar _ _ _ _ _

/-- What the loop does with one file. -/
theorem own_extractFile (f : ZipFile) (dir : Text) (force : Bool) :
    Own fun F => extractFile T R F dir force f := by
  by_cases hp : isPack T f.name = true
  · refine (own_saveFileFromReader f dir force).andThen
      (fun err => own_pure (.error (txt "failed to save file: " ++ err))) (own_pure (.ok true)) ?_ ?_
    · intro F fs err fs' he
      simp only [extractFile, if_pos hp, he]
    · intro F fs fs' he
      simp only [extractFile, if_pos hp, he]
  by_cases hi : isInstaller T f.name = true
  · rcases ho : f.opened with err | err | data
    · refine (own_pure (.error (txt "failed to open file: " ++ err))).congr fun F fs => ?_
      simp only [extractFile, if_neg hp, if_pos hi, ho]
    · refine (own_pure (.error (txt "failed to read file: " ++ err))).congr fun F fs => ?_
      simp only [extractFile, if_neg hp, if_pos hi, ho]
    · refine (own_extractFromGzip R data dir force).andThen (fun _ => own_pure (.ok false))
        (own_pure (.ok true)) ?_ ?_
      · intro F fs err fs' he
        simp only [extractFile, if_neg hp, if_pos hi, ho, he]
      · intro F fs fs' he
        simp only [extractFile, if_neg hp, if_pos hi, ho, he]
  · refine (own_pure (.ok false)).congr fun F fs => ?_
    rw [extractFile, if_neg hp, if_neg hi]

theorem own_extractFiles (dir : Text) (force : Bool) :
    ∀ (files : List ZipFile) (found : Bool), Own fun F => extractFiles T R F dir force files found
  | [], found => own_pure _
  | f :: rest, found => by
    let k : Except Text Bool → Faults → FileSystem → Option Text × FileSystem
      | .error err => fun _ fs => (some err, fs)
      | .ok isFound => fun F => extractFiles T R F dir force rest (found || isFound)
    have hk : ∀ a, Own (k a) := fun a => match a with
      | .error err => own_pure (some err)
      | .ok isFound => own_extractFiles dir force rest (found || isFound)
    refine ((own_extractFile T R f dir force).bind hk).congr fun F fs => ?_
    rw [extractFiles_cons]
    rcases extractFile T R F dir force f fs with ⟨_ | _, _⟩ <;> rfl

theorem own_extractFromZip (data : Bytes) (dir : Text) (force : Bool) :
    Own fun F => extractFromZip T R F data dir force := by
  unfold extractFromZip
  split
  · exact own_pure _
  · exact own_extractFiles T R _ _ _ _

theorem own_extractPack (data : Bytes) (dir : Text) : Own fun F => extractPack T R F data dir := by
  refine (own_extractFromZip T R data dir true).andThen (fun _ => own_extractFromGzip R data dir true)
    (own_pure none) ?_ ?_
  · intro F fs err fs' he
    simp only [extractPack, he]
  · intro F fs fs' he
    simp only [extractPack, he]

end Extraction

end Content
end QuakeKube
