/-
# Reloading the config file

`reload` (`internal/quake/server/server.go`) reads the config file, decodes it
over the defaults and writes `server.cfg`. The decoder is given a pointer to the
pointer `cfg`, and by the rules of `encoding/json` a document that is null sets
`cfg` to nil. `Marshal` then reads the fields of no configuration, which panics
in the main goroutine and ends the process.

So a file that cannot be read or decoded leaves `server.cfg` as it was, one with
a configuration in it is written, and one without a document in it (empty, blank
or commented out, `load_blank`) is not survived.

What `yaml.Unmarshal` makes of a text is an `Unmarshal`. That the directory and
`server.cfg` cannot be written is left out.

Key definitions: `Unmarshal`, `reload`, `ReloadSafe`, `Unmarshal.program`.
Key theorems: `reload_safe_iff`, `load_blank`, `panicked_on_null`.
-/
import QuakeKube.Server.Marshal
import QuakeKube.Server.HotReload

namespace QuakeKube
namespace Server

open Go Yaml

/-- `yaml.Unmarshal`: the text becomes a value or an error, and the value is
decoded over what the target holds. -/
structure Unmarshal (κ : Type) where
  parse : κ → Except Text Node
  decode : Config → Node → Except Text Config

/-- How `reload` ends. -/
inductive Reloaded
  | failed (msg : Text)
  | panicked
  | done
deriving DecidableEq

variable {κ : Type}

/-- `yaml.Unmarshal(data, &cfg)`: what `cfg` points to afterwards. Null sets the
pointer to nil. -/
def Unmarshal.unmarshal (U : Unmarshal κ) (data : κ) (cfg : Config) : Except Text (Option Config) :=
  match U.parse data with
  | .error e => .error e
  | .ok .null => .ok none
  | .ok v => (U.decode cfg v).map some

/-- `cfg.Marshal()`, none where it reads a field of a nil pointer. -/
def marshalRef (P : PrintTable) (cfg : Option Config) : Option Text := cfg.map (Config.marshal P)

/-- `reload`: how it ends, and the `server.cfg` it leaves. -/
def reload (P : PrintTable) (U : Unmarshal κ) (file : Except Text κ) (serverCfg : Option Text) :
    Reloaded × Option Text :=
  match file with
  | .error e => (.failed (txt "failed to read config file: " ++ e), serverCfg)
  | .ok data =>
    match U.unmarshal data withDefault with
    | .error e => (.failed (txt "failed to unmarshal config file: " ++ e), serverCfg)
    | .ok cfg =>
      match marshalRef P cfg with
      | none => (.panicked, serverCfg)
      | some data => (.done, some data)

/-- A `reload` returns an error and has left `server.cfg` as it was, or has
written what it decoded. -/
def ReloadSafe (P : PrintTable) (U : Unmarshal κ) (file : Except Text κ) (serverCfg : Option Text) : Prop :=
  match reload P U file serverCfg with
  | (.failed _, after) => after = serverCfg
  | (.panicked, _) => False
  | (.done, after) => ∃ data c, file = .ok data ∧ U.unmarshal data withDefault = .ok (some c) ∧
      after = some (c.marshal P)

/-! ### The documents that are null -/

variable {P : PrintTable} {U : Unmarshal κ}

theorem unmarshal_of_error {data : κ} {e : Text} (h : U.parse data = .error e) (cfg : Config) :
    U.unmarshal data cfg = .error e := by
  rw [Unmarshal.unmarshal, h]

theorem unmarshal_of_null {data : κ} (h : U.parse data = .ok .null) (cfg : Config) :
    U.unmarshal data cfg = .ok none := by
  rw [Unmarshal.unmarshal, h]

theorem unmarshal_of_ne_null {data : κ} {v : Node} (h : U.parse data = .ok v) (hv : v ≠ .null) (cfg : Config) :
    U.unmarshal data cfg = (U.decode cfg v).map some := by
  unfold Unmarshal.unmarshal
  rw [h]
  cases v with
  | null => exact absurd rfl hv
  | _ => rfl

theorem unmarshal_eq_none_iff {data : κ} (cfg : Config) :
    U.unmarshal data cfg = .ok none ↔ U.parse data = .ok .null := by
  cases hp : U.parse data with
  | error e => simp [unmarshal_of_error hp]
  | ok v =>
    by_cases hv : v = .null
    · rw [hv] at hp ⊢
      simp [unmarshal_of_null hp]
    · rw [unmarshal_of_ne_null hp hv]
      cases U.decode cfg v <;> simp [Except.map, hv]

/-- **When `reload` is safe.** The file cannot be read, or there is a document in it. -/
theorem reload_safe_iff (P : PrintTable) (U : Unmarshal κ) (file : Except Text κ) (serverCfg : Option Text) :
    ReloadSafe P U file serverCfg ↔ ∀ data, file = .ok data → U.parse data ≠ .ok .null := by
  cases file with
  | error e => simp [ReloadSafe, reload]
  | ok data =>
    cases hu : U.unmarshal data withDefault with
    | error e =>
      have hne : U.parse data ≠ .ok .null := by
        rw [ne_eq, ← unmarshal_eq_none_iff withDefault, hu]
        simp
      simp [ReloadSafe, reload, hu, hne]
    | ok cfg =>
      cases cfg with
      | none => simp [ReloadSafe, reload, hu, marshalRef, (unmarshal_eq_none_iff withDefault).mp hu]
      | some c =>
        have hne : U.parse data ≠ .ok .null := by
          rw [ne_eq, ← unmarshal_eq_none_iff withDefault, hu]
          simp
        simp [ReloadSafe, reload, hu, marshalRef, hne]

/-! ### Block documents -/

/-- Decoding the block documents of `Yaml`, with the texts of its errors. -/
def Unmarshal.yaml (N : Numbers) (parseError : Text → Text) (decodeError : Node → Text) : Unmarshal Text where
  parse data := (load N data).elim (.error (parseError data)) .ok
  decode old v := (old.decode v).elim (.error (decodeError v)) .ok

variable {N : Numbers} {parseError : Text → Text} {decodeError : Node → Text}

/-- It decodes what `Config.ofYaml` does. -/
theorem unmarshal_yaml_iff {data : Text} {c : Config} :
    (Unmarshal.yaml N parseError decodeError).unmarshal data withDefault = .ok (some c) ↔
      Config.ofYaml N data = some c := by
  have hp : (Unmarshal.yaml N parseError decodeError).parse data =
      (load N data).elim (.error (parseError data)) .ok := rfl
  cases hl : load N data with
  | none =>
    rw [hl] at hp
    simp [unmarshal_of_error hp, Config.ofYaml, hl]
  | some v =>
    rw [hl] at hp
    by_cases hv : v = .null
    · rw [hv] at hp hl
      simp [unmarshal_of_null hp, Config.ofYaml, hl, Config.decode]
    · rw [unmarshal_of_ne_null hp hv, Config.ofYaml, hl, Option.bind_some, Unmarshal.yaml]
      cases hd : withDefault.decode v <;> simp [Except.map, hd]

/-- A line without a token: blank, or a comment behind blanks. -/
def BlankLine (l : Text) : Prop :=
  l.all allowed = true ∧ ∃ n t, l = List.replicate n ' ' ++ t ∧ (t = [] ∨ t.head? = some '#')

theorem lexLine_blank {l : Text} (h : BlankLine l) : lexLine l = some [] := by
  obtain ⟨hall, n, t, rfl, ht⟩ := h
  have hmark : isMarker (List.replicate n ' ' ++ t) = false := by
    cases n with
    | succ n => rfl
    | zero =>
      rcases ht with rfl | ht
      · rfl
      · obtain ⟨u, rfl⟩ := List.head?_eq_some_iff.mp ht
        rfl
  have hbom : (List.replicate n ' ' ++ t).head? ≠ some bom := by
    cases n with
    | succ n =>
      rw [List.replicate_succ, List.cons_append, List.head?_cons]
      decide
    | zero =>
      rcases ht with rfl | ht
      · decide
      · rw [List.replicate_zero, List.nil_append, ht]
        decide
  have hdrop : (List.replicate n ' ' ++ t).dropWhile (· == ' ') = t := by
    rw [List.dropWhile_append_of_pos (by simp)]
    rcases ht with rfl | ht
    · rfl
    · obtain ⟨u, rfl⟩ := List.head?_eq_some_iff.mp ht
      rfl
  rw [lexLine, hall, hmark, Bool.not_false, Bool.and_self, if_pos rfl, if_neg hbom, lexFrom, hdrop]
  rcases ht with rfl | ht
  · rfl
  · obtain ⟨u, rfl⟩ := List.head?_eq_some_iff.mp ht
    rfl

/-- **A text without a document.** However many lines are blank or comments, it
is read as null. -/
theorem load_blank (N : Numbers) {data : Text} (h : ∀ l ∈ splitLines data, BlankLine l) :
    load N data = some .null := by
  have hlines : ∀ ls : List Text, (∀ l ∈ ls, BlankLine l) →
      ls.mapM lexLine = some (ls.map fun _ => []) := by
    intro ls
    induction ls with
    | nil => simp
    | cons l ls ih =>
      intro hls
      have hl := lexLine_blank (hls l List.mem_cons_self)
      have ih := ih fun l hl => hls l (List.mem_cons_of_mem _ hl)
      simp [List.mapM_cons, hl, ih]
  have htok : tokens data = some [] := by
    rw [tokens, hlines _ h, Option.map_some, List.map_const']
    simp
  rw [load, htok]
  rfl

/-- An empty file is no configuration: `reload` panics. -/
theorem reload_empty_file :
    reload PrintTable.ascii7 (Unmarshal.yaml Numbers.none id fun _ => []) (.ok []) (some (txt "map q3dm7\n")) =
        (.panicked, some (txt "map q3dm7\n")) ∧
      ¬ ReloadSafe PrintTable.ascii7 (Unmarshal.yaml Numbers.none id fun _ => []) (.ok [])
        (some (txt "map q3dm7\n")) := by
  have h : reload PrintTable.ascii7 (Unmarshal.yaml Numbers.none id fun _ => []) (.ok [])
      (some (txt "map q3dm7\n")) =
      (.panicked, some (txt "map q3dm7\n")) := by rfl
  refine ⟨h, ?_⟩
  rw [ReloadSafe, h]
  exact not_false

/-! ### In the supervisor -/

/-- What `reload` makes of a file's content, for the supervisor. -/
def Unmarshal.program (P : PrintTable) (U : Unmarshal κ) : Program κ Text where
  load data :=
    match reload P U (.ok data) none with
    | (.done, some g) => .gives g
    | (.panicked, _) => .panics
    | _ => .fails
  default := withDefault.marshal P

theorem load_panics_iff {data : κ} :
    (U.program P).load data = .panics ↔ U.parse data = .ok .null := by
  rw [← unmarshal_eq_none_iff withDefault]
  simp only [Unmarshal.program, reload]
  cases U.unmarshal data withDefault with
  | error e => simp
  | ok cfg => cases cfg <;> simp [marshalRef]

open Run

/-- What a reload works on is what it has read. -/
structure ReadBack (U : Unmarshal κ) (s : State κ Text) : Prop where
  writing : ∀ r c, s.main = .writing r c → s.lastRead = some c
  panicked : s.main = .returned .panicked → ∃ c, s.lastRead = some c ∧ U.parse c = .ok .null

/-- A step that reads nothing and neither begins a reload nor ends in a panic. -/
theorem ReadBack.of_main_ne {s' : State κ Text} (h1 : ∀ r c, s'.main ≠ .writing r c)
    (h2 : s'.main ≠ .returned .panicked) : ReadBack U s' :=
  ⟨fun r c h => absurd h (h1 r c), fun h => absurd h h2⟩

theorem ReadBack.of_main_eq {s s' : State κ Text} (hI : ReadBack U s) (h1 : s'.main = s.main)
    (h2 : s'.lastRead = s.lastRead) : ReadBack U s' := by
  constructor
  · intro r c h
    rw [h2]
    exact hI.writing r c (h1 ▸ h)
  · intro h
    rw [h2]
    exact hI.panicked (h1 ▸ h)

theorem readBack_step {s s' : State κ Text} {a : Act κ} (hI : ReadBack U s)
    (h : step (U.program P) s a = some s') : ReadBack U s' := by
  cases step_cases h with
  | change c => exact hI.of_main_eq rfl rfl
  | exit _ => exact hI.of_main_eq rfl rfl
  | killed _ => exact hI.of_main_eq rfl rfl
  | event _ => exact hI.of_main_eq rfl rfl
  | dropped _ _ => exact hI.of_main_eq rfl rfl
  | monitorRead _ => exact hI.of_main_eq rfl rfl
  | monitorReturn _ hw =>
    obtain ⟨h1, -, h2, -⟩ := hw.watch_eq
    exact hI.of_main_eq h1 h2
  | read hm =>
    constructor
    · intro r c he
      cases he
      rfl
    · intro he
      cases he
  | panic hm hl =>
    constructor
    · intro r c he
      cases he
    · exact fun _ => ⟨_, hI.writing _ _ hm, load_panics_iff.mp hl⟩
  | invalid hm _ | writeFail hm | defaultFail hm =>
    -- a failed reload returns its error, or the loop goes on
    apply ReadBack.of_main_ne <;> intros <;> unfold State.reloadFailed <;> split <;> simp
  | write hm _ | writeDefault hm =>
    apply ReadBack.of_main_ne <;> intros <;> unfold State.reloaded <;> split <;> simp
  | spawnFirst _ =>
    apply ReadBack.of_main_ne <;> intros <;> dsimp only <;> split <;> simp
  | kill _ =>
    obtain ⟨-, -, -, -, -, hm | hm⟩ := kill_watch_eq s
    all_goals exact .of_main_ne (by simp [hm]) (by simp [hm])
  | received _ _ | start _ | startFail _ | spawnAgain _ | register _ | registerFail _ | loop _ | replace _
    | waitNothing _ | waitReturn _ _ => exact .of_main_ne (by simp) (by simp)

/-- **A null document is the only thing that ends the supervisor in a panic.** -/
theorem panicked_on_null {s : State κ Text} (h : Reach (step (U.program P)) always State.Init s)
    (hp : s.main = .returned .panicked) : ∃ c, s.lastRead = some c ∧ U.parse c = .ok .null := by
  have hI : ReadBack U s := by
    refine h.invariant (fun s h0 => ?_) fun s a s' hI _ => readBack_step hI
    obtain ⟨hm, -⟩ := h0
    apply ReadBack.of_main_ne <;> intros <;> rw [hm] <;> split <;> simp
  exact hI.panicked hp

end Server
end QuakeKube
