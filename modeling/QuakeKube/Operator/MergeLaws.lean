/-
# The algebra of the merge

What a configuration sets (`setting`) and which sections it has
(`hasSection`) determine it (`eq_of_setting_eq`). At every field the override's
setting stands before the base's, and a section is there when either side has
it. So merging is associative and idempotent, and nothing is added by nil, nor
to a configuration by an empty one (`mergeServerConfig_laws`).

A nil list and an empty one are the same here.

Key definitions: `setting`, `Section`, `hasSection`.
Key theorems: `setting_mergeServerConfig`, `hasSection_mergeServerConfig`, `eq_of_setting_eq`,
`mergeServerConfig_laws`.
-/
import QuakeKube.Operator.Merge

namespace QuakeKube
namespace Operator

open Go

/-! ### What a configuration sets -/

/-- A value that is set: no empty text or list, and not `false`. -/
def Value.set? (v : Option Value) : Option Value := v.filter fun v => !v.isEmpty

/-- What a configuration sets a field to; none where a pointer on the way is nil
and where the value is empty. -/
def setting (c : Option ServerConfigSpec) (f : Field) : Option Value := Value.set? (c.bind (·.value f))

inductive Section
  | game | server | bot
deriving DecidableEq

def ServerConfigSpec.hasSection (c : ServerConfigSpec) : Section → Bool
  | .game => c.game.isSome
  | .server => c.server.isSome
  | .bot => c.bot.isSome

/-- The section is present. -/
def hasSection (c : Option ServerConfigSpec) (s : Section) : Bool := c.any (·.hasSection s)

/-! ### The merge, setting by setting -/

theorem set?_merge (x y : Option Value) : Value.set? (merge x y) = (Value.set? y).or (Value.set? x) := by
  cases y with
  | none => simp [Value.set?]
  | some v =>
    by_cases hv : v.isEmpty = true
    · cases x <;> simp [Value.set?, merge, hv, Option.filter]
    · simp [Value.set?, merge, hv, Option.filter]

/-- **At every field the override's setting stands before the base's.** -/
theorem setting_mergeServerConfig (b o : Option ServerConfigSpec) (f : Field) :
    setting (mergeServerConfig b o) f = (setting o f).or (setting b f) := by
  cases o with
  | none => cases b <;> simp [mergeServerConfig, setting, Value.set?]
  | some o =>
    cases b with
    | none => simp [mergeServerConfig, setting, Value.set?]
    | some b =>
      obtain ⟨r, hr, hv⟩ := value_mergeServerConfig b o
      rw [hr]
      calc setting (some r) f = Value.set? (r.value f) := rfl
        _ = Value.set? (merge (b.value f) (o.value f)) := by rw [hv]
        _ = (setting (some o) f).or (setting (some b) f) := set?_merge _ _

theorem isSome_mergeSection {α : Type} (mg : α → α → α) (zero : α) (b o : Option α) :
    (mergeSection mg zero b o).isSome = (o.isSome || b.isSome) := by
  cases o <;> simp [mergeSection]

/-- A section is there when either side has it. -/
theorem hasSection_mergeServerConfig (b o : Option ServerConfigSpec) (s : Section) :
    hasSection (mergeServerConfig b o) s = (hasSection o s || hasSection b s) := by
  cases o with
  | none => cases b <;> simp [mergeServerConfig, hasSection]
  | some o =>
    cases b with
    | none => simp [mergeServerConfig, hasSection]
    | some b =>
      cases s <;> exact isSome_mergeSection _ _ _ _

theorem isSome_mergeServerConfig (b o : Option ServerConfigSpec) :
    (mergeServerConfig b o).isSome = (o.isSome || b.isSome) := by
  cases o <;> cases b <;> rfl

/-! ### Settings and sections are all there is -/

/-- Two values that set the same are equal, if they are when both are empty. -/
theorem eq_of_set?_eq {v w : Value} (h : Value.set? (some v) = Value.set? (some w))
    (he : v.isEmpty = true → w.isEmpty = true → v = w) : v = w := by
  by_cases hv : v.isEmpty = true
  · by_cases hw : w.isEmpty = true
    · exact he hv hw
    · simp [Value.set?, Option.filter, hv, hw] at h
  · by_cases hw : w.isEmpty = true
    · simp [Value.set?, Option.filter, hv, hw] at h
    · simpa [Value.set?, Option.filter, hv, hw] using h

theorem text_eq_of_set {s t : Text} (h : Value.set? (some (.text s)) = Value.set? (some (.text t))) : s = t :=
  Value.text.inj (eq_of_set?_eq h fun hs ht => by rw [List.isEmpty_iff.mp hs, List.isEmpty_iff.mp ht])

theorem maps_eq_of_set {s t : List MapSpec} (h : Value.set? (some (.maps s)) = Value.set? (some (.maps t))) :
    s = t :=
  Value.maps.inj (eq_of_set?_eq h fun hs ht => by rw [List.isEmpty_iff.mp hs, List.isEmpty_iff.mp ht])

theorem texts_eq_of_set {s t : List Text} (h : Value.set? (some (.texts s)) = Value.set? (some (.texts t))) :
    s = t :=
  Value.texts.inj (eq_of_set?_eq h fun hs ht => by rw [List.isEmpty_iff.mp hs, List.isEmpty_iff.mp ht])

theorem bool_eq_of_set {a b : Bool} (h : Value.set? (some (.bool a)) = Value.set? (some (.bool b))) :
    a = b := by
  apply Value.bool.inj
  apply eq_of_set?_eq h
  cases a <;> cases b <;> simp [Value.isEmpty]

/-- A pointer that is not nil is set. -/
theorem pointer_eq_of_set {α : Type} {k : α → Value} (hk : ∀ a, (k a).isEmpty = false)
    (hinj : Function.Injective k) {x y : Option α} (h : Value.set? (x.map k) = Value.set? (y.map k)) :
    x = y := by
  have hset : ∀ z : Option α, Value.set? (z.map k) = z.map k := by
    intro z
    cases z <;> simp [Value.set?, Option.filter, hk]
  rw [hset, hset] at h
  exact Option.map_injective hinj h

theorem int_eq_of_set {x y : Option Int64} (h : Value.set? (x.map .int) = Value.set? (y.map .int)) : x = y :=
  pointer_eq_of_set (fun _ => rfl) (fun _ _ => Value.int.inj) h

theorem duration_eq_of_set {x y : Option Duration}
    (h : Value.set? (x.map .duration) = Value.set? (y.map .duration)) : x = y :=
  pointer_eq_of_set (fun _ => rfl) (fun _ _ => Value.duration.inj) h

theorem GameConfigSpec.eq_of_set {a b : GameConfigSpec}
    (h : ∀ f, Value.set? (a.value f) = Value.set? (b.value f)) : a = b := by
  obtain ⟨t, m, fr, i, q, pw, w⟩ := a
  obtain ⟨t', m', fr', i', q', pw', w'⟩ := b
  have ht : t = t' := text_eq_of_set (h .type)
  have hm : m = m' := text_eq_of_set (h .motd)
  have hfr : fr = fr' := bool_eq_of_set (h .forceRespawn)
  have hi : i = i' := duration_eq_of_set (h .inactivity)
  have hq : q = q' := int_eq_of_set (h .quadFactor)
  have hpw : pw = pw' := text_eq_of_set (h .password)
  have hw : w = w' := int_eq_of_set (h .weaponRespawn)
  rw [ht, hm, hfr, hi, hq, hpw, hw]

theorem ServerSettings.eq_of_set {a b : ServerSettings}
    (h : ∀ f, Value.set? (a.value f) = Value.set? (b.value f)) : a = b := by
  obtain ⟨n, m, r⟩ := a
  obtain ⟨n', m', r'⟩ := b
  have hn : n = n' := text_eq_of_set (h .hostname)
  have hm : m = m' := int_eq_of_set (h .maxClients)
  have hr : r = r' := text_eq_of_set (h .rconPassword)
  rw [hn, hm, hr]

theorem BotConfigSpec.eq_of_set {a b : BotConfigSpec}
    (h : ∀ f, Value.set? (a.value f) = Value.set? (b.value f)) : a = b := by
  obtain ⟨m, s, n⟩ := a
  obtain ⟨m', s', n'⟩ := b
  have hm : m = m' := int_eq_of_set (h .minPlayers)
  have hs : s = s' := int_eq_of_set (h .skill)
  have hn : n = n' := bool_eq_of_set (h .noChat)
  rw [hm, hs, hn]

theorem section_eq_of_set {α φ : Type} {value : α → φ → Option Value}
    (hext : ∀ a b, (∀ f, Value.set? (value a f) = Value.set? (value b f)) → a = b) {x y : Option α}
    (hp : x.isSome = y.isSome)
    (h : ∀ f, Value.set? (x.bind (value · f)) = Value.set? (y.bind (value · f))) : x = y := by
  cases x with
  | none =>
    cases y with
    | none => rfl
    | some b => cases hp
  | some a =>
    cases y with
    | none => cases hp
    | some b => exact congrArg some (hext a b h)

/-- **Settings and sections determine a configuration.** -/
theorem eq_of_setting_eq {a b : Option ServerConfigSpec} (hp : a.isSome = b.isSome)
    (hsec : ∀ s, hasSection a s = hasSection b s) (h : ∀ f, setting a f = setting b f) : a = b := by
  cases a with
  | none =>
    cases b with
    | none => rfl
    | some b => cases hp
  | some a =>
    cases b with
    | none => cases hp
    | some b =>
      obtain ⟨fl, tl, g, s, bt, ms, cs⟩ := a
      obtain ⟨fl', tl', g', s', bt', ms', cs'⟩ := b
      have hfl : fl = fl' := int_eq_of_set (h .fragLimit)
      have htl : tl = tl' := duration_eq_of_set (h .timeLimit)
      have hms : ms = ms' := maps_eq_of_set (h .maps)
      have hcs : cs = cs' := texts_eq_of_set (h .commands)
      have hg : g = g' :=
        section_eq_of_set (fun _ _ => GameConfigSpec.eq_of_set) (hsec .game) fun f => h (.game f)
      have hs : s = s' :=
        section_eq_of_set (fun _ _ => ServerSettings.eq_of_set) (hsec .server) fun f => h (.server f)
      have hbt : bt = bt' :=
        section_eq_of_set (fun _ _ => BotConfigSpec.eq_of_set) (hsec .bot) fun f => h (.bot f)
      rw [hfl, htl, hms, hcs, hg, hs, hbt]

/-! ### The laws -/

theorem mergeServerConfig_assoc (a b c : Option ServerConfigSpec) :
    mergeServerConfig a (mergeServerConfig b c) = mergeServerConfig (mergeServerConfig a b) c := by
  apply eq_of_setting_eq
  · simp only [isSome_mergeServerConfig, Bool.or_assoc]
  · intro s
    simp only [hasSection_mergeServerConfig, Bool.or_assoc]
  · intro f
    calc setting (mergeServerConfig a (mergeServerConfig b c)) f
        = ((setting c f).or (setting b f)).or (setting a f) := by
          rw [setting_mergeServerConfig, setting_mergeServerConfig]
      _ = (setting c f).or ((setting b f).or (setting a f)) := Option.or_assoc
      _ = setting (mergeServerConfig (mergeServerConfig a b) c) f := by
          rw [setting_mergeServerConfig, setting_mergeServerConfig]

theorem mergeServerConfig_self (a : Option ServerConfigSpec) : mergeServerConfig a a = a := by
  apply eq_of_setting_eq
  · rw [isSome_mergeServerConfig, Bool.or_self]
  · intro s
    rw [hasSection_mergeServerConfig, Bool.or_self]
  · intro f
    rw [setting_mergeServerConfig, Option.or_self]

theorem setting_zero (f : Field) : setting (some .zero) f = none := by
  cases f <;> rfl

/-- An empty configuration adds nothing, on either side. -/
theorem mergeServerConfig_zero (c : ServerConfigSpec) :
    mergeServerConfig (some c) (some .zero) = some c ∧ mergeServerConfig (some .zero) (some c) = some c := by
  have hsec : ∀ s, hasSection (some .zero) s = false := by
    intro s
    cases s <;> rfl
  constructor <;> apply eq_of_setting_eq
  · rfl
  · intro s
    rw [hasSection_mergeServerConfig, hsec, Bool.false_or]
  · intro f
    rw [setting_mergeServerConfig, setting_zero, Option.none_or]
  · rfl
  · intro s
    rw [hasSection_mergeServerConfig, hsec, Bool.or_false]
  · intro f
    rw [setting_mergeServerConfig, setting_zero, Option.or_none]

/-- **The merge is a right-biased pointwise one**, and so associative and
idempotent, with nil as its identity and the empty configuration as one for the
others. -/
theorem mergeServerConfig_laws :
    (∀ base override, (mergeServerConfig base override).isSome = (override.isSome || base.isSome) ∧
      (∀ s, hasSection (mergeServerConfig base override) s = (hasSection override s || hasSection base s)) ∧
      ∀ f, setting (mergeServerConfig base override) f = (setting override f).or (setting base f)) ∧
    (∀ a b c, mergeServerConfig a (mergeServerConfig b c) = mergeServerConfig (mergeServerConfig a b) c) ∧
    (∀ a, mergeServerConfig a a = a) ∧
    (∀ a, mergeServerConfig a none = a ∧ mergeServerConfig none a = a) ∧
    ∀ c, mergeServerConfig (some c) (some .zero) = some c ∧
      mergeServerConfig (some .zero) (some c) = some c := by
  refine ⟨fun b o => ⟨isSome_mergeServerConfig b o, hasSection_mergeServerConfig b o,
    setting_mergeServerConfig b o⟩, mergeServerConfig_assoc, mergeServerConfig_self, fun a => ?_,
    mergeServerConfig_zero⟩
  cases a <;> exact ⟨rfl, rfl⟩

end Operator
end QuakeKube
