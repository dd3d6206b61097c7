/-
# What commands give a variable

Commands none of which runs a text give a variable that is there the value of the
last one that sets it, and leave it as it is where none does: `set` and its kin
need a value to set it, and a command by the name of the variable sets it too.

Key definitions: `assigned`, `lastAssigned`.
Key theorems: `Console.apply_assigned`, `foldl_apply_assigned`, `lastAssigned_append`.
-/
import QuakeKube.Lib.Script

namespace Script

open Go

/-- What a command other than `vstr` gives the variable `v`, which is there. -/
def assigned (v : Text) : Command → Option Text
  | name :: w :: ws =>
    if name ∈ setters then if w = v ∧ ws ≠ [] then some (joinText [' '] ws) else none
    else if name ≠ txt "map" ∧ name = v then some (joinText [' '] (w :: ws)) else none
  | _ => none

/-- What the last of the commands that sets the variable gives it. -/
def lastAssigned (v : Text) : List Command → Option Text
  | [] => none
  | c :: cs => (lastAssigned v cs).or (assigned v c)

/-- **One command**: it sets the variable, or leaves it. -/
theorem Console.apply_assigned {s : Console} {v old : Text} (h : s.cvar v = some old) (c : Command) :
    (s.apply c).cvar v = some ((assigned v c).getD old) := by
  match c with
  | [] => exact h
  | [_] => exact h
  | name :: w :: ws =>
    simp only [Console.apply, assigned]
    by_cases hset : name ∈ setters
    · rw [if_pos hset, if_pos hset]
      by_cases hws : ws = []
      · rw [if_pos hws, if_neg fun hw => hw.2 hws]
        exact h
      · rw [if_neg hws]
        by_cases hw : w = v
        · rw [if_pos ⟨hw, hws⟩, hw]
          exact Function.update_self _ _ _
        · rw [if_neg fun h => hw h.1]
          exact (Function.update_of_ne (fun hv => hw hv.symm) _ _).trans h
    · rw [if_neg hset, if_neg hset]
      by_cases hmap : name = txt "map"
      · rw [if_pos hmap, if_neg fun h => h.1 hmap]
        exact h
      · rw [if_neg hmap]
        by_cases hv : name = v
        · subst hv
          rw [if_pos (by rw [h]; exact Option.some_ne_none old), if_pos ⟨hmap, rfl⟩]
          exact Function.update_self _ _ _
        · rw [if_neg fun hname : name ≠ txt "map" ∧ name = v => hv hname.2]
          split_ifs
          · exact (Function.update_of_ne (fun hv' => hv hv'.symm) _ _).trans h
          · exact h

/-- **The last command that sets a variable gives it its value.** -/
theorem foldl_apply_assigned {s : Console} {v old : Text} (h : s.cvar v = some old) (cs : List Command) :
    (cs.foldl Console.apply s).cvar v = some ((lastAssigned v cs).getD old) := by
  induction cs generalizing s old with
  | nil => exact h
  | cons c cs ih =>
    rw [List.foldl_cons, ih (Console.apply_assigned h c), lastAssigned]
    cases lastAssigned v cs <;> rfl

theorem lastAssigned_append (v : Text) (cs ds : List Command) :
    lastAssigned v (cs ++ ds) = (lastAssigned v ds).or (lastAssigned v cs) := by
  induction cs with
  | nil => exact (Option.or_none).symm
  | cons c cs ih =>
    rw [List.cons_append, lastAssigned, ih, lastAssigned]
    exact Option.or_assoc

theorem assigned_of_target_ne {v : Text} {c : Command} (h : target c ≠ some v) : assigned v c = none := by
  match c with
  | [] => rfl
  | [_] => rfl
  | name :: w :: ws =>
    simp only [target] at h
    simp only [assigned]
    by_cases hset : name ∈ setters
    · rw [if_pos hset] at h ⊢
      exact if_neg fun hw => h (congrArg some hw.1)
    · rw [if_neg hset] at h ⊢
      by_cases hmap : name = txt "map"
      · exact if_neg fun hname => hname.1 hmap
      · rw [if_neg hmap] at h
        exact if_neg fun hname => h (congrArg some hname.2)

/-- Commands that do not set a variable give it nothing. -/
theorem lastAssigned_eq_none {v : Text} {cs : List Command} (h : ∀ c ∈ cs, target c ≠ some v) :
    lastAssigned v cs = none := by
  induction cs with
  | nil => rfl
  | cons c cs ih =>
    rw [lastAssigned, ih fun d hd => h d (List.mem_cons_of_mem _ hd),
      assigned_of_target_ne (h c List.mem_cons_self)]
    rfl

end Script
