/-
# The end of the websocket proxy

Each goroutine of `ServeHTTP` ends by putting one error into `errc`, which has room
for one; `ServeHTTP` takes one out, or leaves because the request is cancelled. So
the errors in the channel and the one taken are as many as the goroutines that
have reported (`counted_run`). When an error has been taken both goroutines can
always come to their end; when the request was cancelled instead, one of them
waits for room in the channel for ever (`goroutines_end_iff`).

Key definitions: `Over`, `State.reports`, `Counted`.
Key theorems: `counted_step`, `exists_over`, `goroutines_end_iff`.
-/
import QuakeKube.Client.Proxy

namespace QuakeKube
namespace Client

open Run

variable {A : Type}

/-- Both goroutines have returned. -/
def Over (s : State A) : Prop := s.reader = .returned ∧ s.backend = .returned

/-- The reader's error has been in the channel. -/
def Reader.reported : Reader → Bool
  | .closing | .writingClose | .returned => true
  | _ => false

def Backend.reported : Backend → Bool
  | .returned => true
  | _ => false

/-- How many goroutines have reported. -/
def State.reports (s : State A) : ℕ := s.reader.reported.toNat + s.backend.reported.toNat

/-- All that was reported is in the channel, but for `n` errors. -/
def Counted (n : ℕ) (s : State A) : Prop := s.reports = s.errc.toNat + n

/-- The action takes an error out of the channel. -/
def Action.takes : Action A → Bool
  | .takesError => true
  | _ => false

/-- `ServeHTTP` is left by the action, after an error or not. -/
def Action.leaves : Action A → Bool
  | .takesError | .cancelled => true
  | _ => false

variable {addr : A} {s s' : State A} {a : Action A} {n : ℕ}

/-- **No error is lost and none is made up.** -/
theorem counted_step (h : Counted n s) (hs : step addr s a = some s') : Counted (n + a.takes.toNat) s' := by
  simp only [Counted, State.reports] at h ⊢
  cases step_cases hs with
  | @readMessage msg rest hr =>
    rw [hr] at h
    by_cases hp : isPort msg = true <;> simpa [hp, Reader.reported, Action.takes] using h
  | readFails hr | send hr | sendFails hr | closeBegins hr | closeEnds hr =>
    rw [hr] at h
    simpa [Reader.reported, Action.takes] using h
  | reportsLost hr he | reportsUnsent hr he =>
    rw [hr, he] at h
    simp only [Reader.reported, Action.takes, Bool.toNat_true, Bool.toNat_false] at h ⊢
    omega
  | receive hb | receiveFails hb | writeBegins hb | writeEnds hb | writeFails hb =>
    rw [hb] at h
    simpa [Backend.reported, Action.takes] using h
  | backendReports hb he =>
    rw [hb, he] at h
    simp only [Backend.reported, Action.takes, Bool.toNat_true, Bool.toNat_false] at h ⊢
    omega
  | takesError _ he =>
    rw [he] at h
    simp only [Action.takes, Bool.toNat_true, Bool.toNat_false] at h ⊢
    omega
  | browserSends | arrives | cancelled | closesBackend | closesWebsocket => exact h

/-- Whether `ServeHTTP` waits, in numbers. -/
def Main.left : Main → ℕ
  | .waiting => 0
  | _ => 1

/-- It is left once. -/
theorem left_step (hs : step addr s a = some s') : s'.main.left = s.main.left + a.leaves.toNat := by
  cases step_cases hs with
  | takesError hm | cancelled hm | closesBackend hm | closesWebsocket hm =>
    simp only [hm, Main.left, Action.leaves, Bool.toNat_true, Bool.toNat_false]
  | _ => rfl

theorem counted_run {as : List (Action A)} (h : Counted n s) (hr : run (step addr) s as = some s') :
    Counted (n + as.countP Action.takes) s' ∧ s'.main.left = s.main.left + as.countP Action.leaves := by
  induction as generalizing n s with
  | nil =>
    cases hr
    exact ⟨h, rfl⟩
  | cons a as ih =>
    obtain ⟨t, ht, hrest⟩ := Option.bind_eq_some_iff.mp hr
    obtain ⟨hc, hl⟩ := ih (counted_step h ht) hrest
    rw [left_step ht] at hl
    have hcount : ∀ p : Action A → Bool, (a :: as).countP p = (p a).toNat + as.countP p := by
      intro p
      cases hp : p a <;> simp [hp, Nat.add_comm]
    rw [hcount, hcount, ← Nat.add_assoc, ← Nat.add_assoc]
    exact ⟨hc, hl⟩

/-- An error is taken by leaving, and a cancelled request leaves without one. -/
theorem takes_of_ne_cancelled {a : Action A} (h : a ≠ .cancelled) : a.takes = a.leaves := by
  cases a with
  | cancelled => exact absurd rfl h
  | _ => rfl

theorem leaves_of_takes {a : Action A} (h : a.takes = true) : a.leaves = true := by
  cases a with
  | takesError => rfl
  | _ => cases h

theorem countP_takes_eq {as : List (Action A)} (h : Action.cancelled ∉ as) :
    as.countP Action.takes = as.countP Action.leaves :=
  List.countP_congr fun a ha => by rw [takes_of_ne_cancelled (ne_of_mem_of_not_mem ha h)]

theorem countP_takes_le (as : List (Action A)) : as.countP Action.takes ≤ as.countP Action.leaves :=
  List.countP_mono_left fun _ _ => leaves_of_takes

theorem countP_takes_lt {as : List (Action A)} (h : Action.cancelled ∈ as) :
    as.countP Action.takes < as.countP Action.leaves := by
  obtain ⟨bs, cs, rfl⟩ := List.append_of_mem h
  have hb := countP_takes_le bs
  have hc := countP_takes_le cs
  simp only [List.countP_append, List.countP_cons, Action.takes, Action.leaves, if_true, Bool.false_eq_true,
    if_false]
  omega

/-- Once `ServeHTTP` is left, nobody takes an error. -/
theorem counted_after (hm : s.main.left = 1) (h : Counted n s) {bs : List (Action A)}
    (hr : run (step addr) s bs = some s') : Counted n s' := by
  obtain ⟨hc, hl⟩ := counted_run h hr
  have hle : s'.main.left ≤ 1 := by cases s'.main <;> simp [Main.left]
  have htaken := countP_takes_le bs
  have hzero : bs.countP Action.takes = 0 := by omega
  rwa [hzero] at hc

/-- With both errors reported, one of them was taken. -/
theorem not_over_of_counted (h : Counted 0 s) : ¬ Over s := by
  rintro ⟨hr, hb⟩
  rw [Counted, State.reports, hr, hb] at h
  have he := s.errc.toNat_le
  simp only [Reader.reported, Backend.reported, Bool.toNat_true] at h
  omega

/-- The reader comes to its end when an error was taken. -/
theorem exists_reader_returned (addr : A) (h : Counted 1 s) :
    ∃ bs t, run (step addr) s bs = some t ∧ t.reader = .returned ∧ t.backend = s.backend := by
  have hfree : s.reader.reported = false → s.errc = false := by
    intro hr
    rw [Counted, State.reports, hr] at h
    have hb := s.backend.reported.toNat_le
    cases he : s.errc with
    | false => rfl
    | true =>
      rw [he] at h
      simp only [Bool.toNat_true, Bool.toNat_false] at h
      omega
  cases hr : s.reader with
  | reading =>
    have he := hfree (by rw [hr]; rfl)
    exact ⟨[.readFails, .readerReports, .closeBegins, .closeEnds],
      { s with reader := .returned, errc := true },
      by simp [run_cons, step, hr, he], rfl, rfl⟩
  | sending msg =>
    have he := hfree (by rw [hr]; rfl)
    exact ⟨[.sendFails false, .readerReports], { s with reader := .returned, errc := true },
      by simp [run_cons, step, hr, he], rfl, rfl⟩
  | failed =>
    have he := hfree (by rw [hr]; rfl)
    exact ⟨[.readerReports, .closeBegins, .closeEnds], { s with reader := .returned, errc := true },
      by simp [run_cons, step, hr, he], rfl, rfl⟩
  | closing =>
    exact ⟨[.closeBegins, .closeEnds], { s with reader := .returned }, by simp [run_cons, step, hr], rfl, rfl⟩
  | writingClose =>
    exact ⟨[.closeEnds], { s with reader := .returned }, by simp [run_cons, step, hr], rfl, rfl⟩
  | reporting =>
    have he := hfree (by rw [hr]; rfl)
    exact ⟨[.readerReports], { s with reader := .returned, errc := true },
      by simp [run_cons, step, hr, he], rfl, rfl⟩
  | returned => exact ⟨[], s, rfl, hr, rfl⟩

/-- The other one comes to its end after it. -/
theorem exists_backend_returned (addr : A) (h : Counted 1 s) (hr : s.reader = .returned) :
    ∃ bs t, run (step addr) s bs = some t ∧ Over t := by
  have hfree : s.backend.reported = false → s.errc = false := by
    intro hb
    rw [Counted, State.reports, hr, hb] at h
    cases he : s.errc with
    | false => rfl
    | true =>
      rw [he] at h
      simp [Reader.reported] at h
  cases hb : s.backend with
  | reading =>
    have he := hfree (by rw [hb]; rfl)
    exact ⟨[.receiveFails, .backendReports], { s with backend := .returned, errc := true },
      by simp [run_cons, step, hb, he], hr, rfl⟩
  | received p =>
    have he := hfree (by rw [hb]; rfl)
    exact ⟨[.writeBegins, .writeFails false, .backendReports], { s with backend := .returned, errc := true },
      by simp [run_cons, step, hb, he], hr, rfl⟩
  | writing p =>
    have he := hfree (by rw [hb]; rfl)
    exact ⟨[.writeFails false, .backendReports], { s with backend := .returned, errc := true },
      by simp [run_cons, step, hb, he], hr, rfl⟩
  | reporting =>
    have he := hfree (by rw [hb]; rfl)
    exact ⟨[.backendReports], { s with backend := .returned, errc := true },
      by simp [run_cons, step, hb, he], hr, rfl⟩
  | returned => exact ⟨[], s, rfl, hr, hb⟩

/-- Both do, when an error was taken. -/
theorem exists_over (addr : A) (hm : s.main.left = 1) (h : Counted 1 s) :
    ∃ bs t, run (step addr) s bs = some t ∧ Over t := by
  obtain ⟨bs, t, hrun, hr, -⟩ := exists_reader_returned addr h
  obtain ⟨cs, u, hrun', hover⟩ := exists_backend_returned addr (counted_after hm h hrun) hr
  refine ⟨bs ++ cs, u, ?_, hover⟩
  rw [run_append, hrun]
  exact hrun'

/-- **The goroutines of a connection can come to their end, whatever has happened,
if and only if** it was not left by a cancelled request; after one, not both ever do. -/
theorem goroutines_end_iff {as : List (Action A)} (h : run (step addr) .initial as = some s)
    (hm : s.main ≠ .waiting) :
    ((∀ bs t, run (step addr) s bs = some t → ∃ cs u, run (step addr) t cs = some u ∧ Over u) ↔
      .cancelled ∉ as) ∧
    (.cancelled ∈ as → ∀ bs t, run (step addr) s bs = some t → ¬ Over t) := by
  have hinitial : Counted 0 (State.initial (A := A)) := rfl
  obtain ⟨hcounted, hl⟩ := counted_run hinitial h
  have hleft : s.main.left = 1 := by
    cases hs : s.main with
    | waiting => exact absurd hs hm
    | _ => rfl
  have hone : as.countP Action.leaves = 1 := by
    rw [hleft] at hl
    simpa [State.initial, Main.left] using hl.symm
  have hnever : .cancelled ∈ as → ∀ bs t, run (step addr) s bs = some t → ¬ Over t := by
    intro hc bs t hrun
    have hzero : as.countP Action.takes = 0 := by
      have hlt := countP_takes_lt hc
      omega
    rw [hzero] at hcounted
    exact not_over_of_counted (counted_after hleft hcounted hrun)
  refine ⟨⟨fun hend hc => ?_, fun hc bs t hrun => ?_⟩, hnever⟩
  · obtain ⟨cs, u, hrun, hover⟩ := hend [] s rfl
    exact hnever hc cs u hrun hover
  · rw [countP_takes_eq hc, hone] at hcounted
    obtain ⟨-, hl'⟩ := counted_run hcounted hrun
    have hle : t.main.left ≤ 1 := by cases t.main <;> simp [Main.left]
    exact exists_over addr (by omega) (counted_after hleft hcounted hrun)

/-- A browser that has gone, told to `ServeHTTP`. -/
theorem goroutines_end_iff_gone :
    ∃ s, run (step (A := ℕ) 0) .initial [.readFails, .readerReports, .takesError] = some s ∧
      ∀ bs t, run (step 0) s bs = some t → ∃ cs u, run (step 0) t cs = some u ∧ Over u := by
  refine ⟨_, rfl, ?_⟩
  have hrun : run (step (A := ℕ) 0) .initial [.readFails, .readerReports, .takesError] =
      some { State.initial with reader := .closing, main := .returning } := rfl
  exact (goroutines_end_iff hrun (by decide)).1.mpr (by simp)

end Client
end QuakeKube
