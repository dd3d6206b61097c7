/-
# The file system under the assets directory

What `os.Stat`, `os.MkdirAll` and `os.WriteFile` do to a tree of directories
and files without links. `stat_mkdirAll`, `stat_writeFile_self` and
`stat_writeFile_of_ne` say what a call that succeeds changes. A call can also
fail where the tree would not make it: then a path's directories are made in
part, or a file is left truncated (`Faults`).

Key definitions: `Node.stat`, `Node.mkdirAll`, `Node.writeFile`, `FileSystem`, `Faults`.
Key theorems: `stat_mkdirAll`, `stat_writeFile_self`, `stat_writeFile_of_ne`,
`FileSystem.stat_after_mkdirAll`, `FileSystem.stat_after_writeFile`.
-/
import QuakeKube.Content.Files

namespace QuakeKube
namespace Content

open Go Loc

/-! ### The tree -/

namespace Entries

def get (n : Name) : Entries → Option Node
  | .nil => none
  | .cons m node rest => if m = n then some node else get n rest

/-- The entry `n` replaced, or added before the first name that comes after it. -/
def set (n : Name) (node : Node) : Entries → Entries
  | .nil => .cons n node .nil
  | .cons m node' rest =>
    if m = n then .cons n node rest
    else if n.val < m.val then .cons n node (.cons m node' rest)
    else .cons m node' (set n node rest)

theorem get_set_self (n : Name) (node : Node) : ∀ es : Entries, (es.set n node).get n = some node
  | .nil => by simp [set, get]
  | .cons m node' rest => by
    unfold set
    by_cases hm : m = n
    · simp [hm, get]
    · by_cases hn : n.val < m.val
      · simp [hm, hn, get]
      · rw [if_neg hm, if_neg hn, get, if_neg hm]
        exact get_set_self n node rest

theorem get_set_of_ne {n m : Name} (h : m ≠ n) (node : Node) :
    ∀ es : Entries, (es.set n node).get m = es.get m
  | .nil => by simp [set, get, Ne.symm h]
  | .cons m' node' rest => by
    unfold set
    by_cases hm : m' = n
    · simp [hm, get, Ne.symm h]
    · by_cases hn : n.val < m'.val
      · simp [hm, hn, get, Ne.symm h]
      · rw [if_neg hm, if_neg hn, get, get, get_set_of_ne h node rest]

theorem set_set (n : Name) (a b : Node) : ∀ es : Entries, (es.set n a).set n b = es.set n b
  | .nil => by simp [set]
  | .cons m node rest => by
    unfold set
    by_cases hm : m = n
    · simp [hm, set]
    · by_cases hn : n.val < m.val
      · simp [hm, hn, set]
      · simp [hm, hn, set, set_set n a b rest]

end Entries

/-- What `os.Stat` finds. -/
inductive Stat
  | missing
  /-- Something on the way is a file. -/
  | notDir
  | dir
  | file (data : Bytes)
deriving DecidableEq

namespace Node

def stat : List Name → Node → Stat
  | [], .file data => .file data
  | [], .dir _ => .dir
  | _ :: _, .file _ => .notDir
  | n :: ns, .dir es =>
    match es.get n with
    | none => .missing
    | some node => stat ns node

/-- `os.MkdirAll`. -/
def mkdirAll : List Name → Node → Option Node
  | _, .file _ => none
  | [], .dir es => some (.dir es)
  | n :: ns, .dir es =>
    (mkdirAll ns ((es.get n).getD (.dir .nil))).map fun node => .dir (es.set n node)

/-- `os.WriteFile`. -/
def writeFile (data : Bytes) : List Name → Node → Option Node
  | _, .file _ => none
  | [], .dir _ => none
  | n :: ns, .dir es =>
    match ns, es.get n with
    | [], some (.dir _) => none
    | [], _ => some (.dir (es.set n (.file data)))
    | _ :: _, none => none
    | _ :: _, some node => (writeFile data ns node).map fun node => .dir (es.set n node)

theorem stat_cons_of_get {es : Entries} {n : Name} {node : Node} (h : es.get n = some node) (ns : List Name) :
    (dir es).stat (n :: ns) = node.stat ns := by
  rw [stat, h]

theorem stat_cons_of_get_eq_none {es : Entries} {n : Name} (h : es.get n = none) (ns : List Name) :
    (dir es).stat (n :: ns) = .missing := by
  rw [stat, h]

theorem stat_cons_set_self (es : Entries) (n : Name) (node : Node) (ns : List Name) :
    (dir (es.set n node)).stat (n :: ns) = node.stat ns :=
  stat_cons_of_get (es.get_set_self n node) ns

theorem stat_cons_set_of_ne {m n : Name} (h : m ≠ n) (es : Entries) (node : Node) (ms : List Name) :
    (dir (es.set n node)).stat (m :: ms) = (dir es).stat (m :: ms) := by
  rw [stat, stat, es.get_set_of_ne h]

/-- What a `MkdirAll` that succeeds changes. -/
theorem stat_mkdirAll : ∀ (p : List Name) {root root' : Node}, root.mkdirAll p = some root' → ∀ q : List Name,
    root'.stat q = if q <+: p then .dir else root.stat q
  | _, .file _, _, h, _ => by simp [mkdirAll] at h
  | [], .dir es, _, h, q => by
    cases h
    by_cases hq : q = []
    · simp [hq, stat]
    · simp [hq]
  | n :: ns, .dir es, root', h, q => by
    obtain ⟨node, hn, rfl⟩ := Option.map_eq_some_iff.mp h
    have ih := stat_mkdirAll ns hn
    match q with
    | [] => simp [stat]
    | m :: ms =>
      by_cases hm : m = n
      · subst hm
        rw [stat_cons_set_self, ih ms]
        by_cases hp : ms <+: ns
        · rw [if_pos hp, if_pos ((List.prefix_cons_inj m).mpr hp)]
        · rw [if_neg hp, if_neg fun h => hp ((List.prefix_cons_inj m).mp h)]
          cases hg : es.get m with
          | some node' => rw [stat_cons_of_get hg, Option.getD_some]
          | none =>
            -- below a directory that was made nothing is
            obtain ⟨k, ks, rfl⟩ := List.exists_cons_of_ne_nil fun he : ms = [] => hp (he ▸ List.nil_prefix)
            rw [stat_cons_of_get_eq_none hg]
            rfl
      · rw [stat_cons_set_of_ne hm, if_neg fun hp => hm (List.cons_prefix_cons.mp hp).1]

/-- On the way of `MkdirAll` are directories, or nothing. -/
theorem stat_of_mkdirAll : ∀ (p : List Name) {root root' : Node}, root.mkdirAll p = some root' →
    ∀ q : List Name,
    q <+: p → root.stat q = .dir ∨ root.stat q = .missing
  | _, .file _, _, h, _, _ => by simp [mkdirAll] at h
  | [], .dir es, _, _, q, hq => by
    rw [List.prefix_nil.mp hq]
    exact .inl rfl
  | n :: ns, .dir es, _, h, q, hq => by
    obtain ⟨node, hn, -⟩ := Option.map_eq_some_iff.mp h
    match q with
    | [] => exact .inl rfl
    | m :: ms =>
      obtain ⟨rfl, hms⟩ := List.cons_prefix_cons.mp hq
      cases hg : es.get m with
      | none => exact .inr (stat_cons_of_get_eq_none hg ms)
      | some node' =>
        rw [hg] at hn
        rw [stat_cons_of_get hg]
        exact stat_of_mkdirAll ns hn ms hms

/-- Where only directories are on the way, `MkdirAll` succeeds. -/
theorem mkdirAll_isSome : ∀ (p : List Name) {root : Node},
    (∀ q, q <+: p → root.stat q = .dir ∨ root.stat q = .missing) → (root.mkdirAll p).isSome
  | p, .file data, h => by
    have := h [] List.nil_prefix
    simp [stat] at this
  | [], .dir es, _ => rfl
  | n :: ns, .dir es, h => by
    rw [mkdirAll, Option.isSome_map]
    apply mkdirAll_isSome ns
    intro q hq
    cases hg : es.get n with
    | none =>
      match q with
      | [] => exact .inl rfl
      | _ :: _ => exact .inr rfl
    | some node =>
      have := h (n :: q) (List.cons_prefix_cons.mpr ⟨rfl, hq⟩)
      rwa [stat_cons_of_get hg] at this

/-- What a write that succeeds has done: set the last entry of its path, which
is no directory, or written below an entry that is there. -/
theorem writeFile_cases {data : Bytes} {n : Name} {ns : List Name} {root root' : Node}
    (h : root.writeFile data (n :: ns) = some root') :
    ∃ es node, root = .dir es ∧ root' = .dir (es.set n node) ∧
      ((ns = [] ∧ node = .file data ∧ ∀ es', es.get n ≠ some (.dir es')) ∨
        ∃ node', es.get n = some node' ∧ node'.writeFile data ns = some node) := by
  cases root with
  | file _ => simp [writeFile] at h
  | dir es =>
    unfold writeFile at h
    split at h
    · cases h
    · rename_i hg
      cases h
      exact ⟨es, _, rfl, rfl, .inl ⟨rfl, rfl, hg⟩⟩
    · cases h
    · rename_i node' hg
      obtain ⟨node, hn, rfl⟩ := Option.map_eq_some_iff.mp h
      exact ⟨es, node, rfl, rfl, .inr ⟨node', hg, hn⟩⟩

theorem writeFile_nil (data : Bytes) (root : Node) : root.writeFile data [] = none := by
  cases root <;> rfl

/-- What `WriteFile` has written is there. -/
theorem stat_writeFile_self {data : Bytes} : ∀ (p : List Name) {root root' : Node},
    root.writeFile data p = some root' → root'.stat p = .file data
  | [], root, _, h => by simp [writeFile_nil] at h
  | n :: ns, _, _, h => by
    obtain ⟨es, node, rfl, rfl, ⟨rfl, rfl, -⟩ | ⟨node', -, hn⟩⟩ := writeFile_cases h
    · rw [stat_cons_set_self]
      rfl
    · rw [stat_cons_set_self]
      exact stat_writeFile_self ns hn

/-- `WriteFile` changes nothing beside its path. -/
theorem stat_writeFile_of_ne {data : Bytes} : ∀ (p : List Name) {root root' : Node},
    root.writeFile data p = some root' → ∀ q : List Name, ¬ p <+: q → root'.stat q = root.stat q
  | [], root, _, h, _, _ => by simp [writeFile_nil] at h
  | n :: ns, _, _, h, q, hq => by
    obtain ⟨es, node, rfl, rfl, hor⟩ := writeFile_cases h
    match q with
    | [] => rfl
    | m :: ms =>
      by_cases hm : m = n
      · subst hm
        have hms : ¬ ns <+: ms := fun hp => hq ((List.prefix_cons_inj m).mpr hp)
        obtain ⟨rfl, -⟩ | ⟨node', hg, hn⟩ := hor
        · exact absurd List.nil_prefix hms
        · rw [stat_cons_set_self, stat_cons_of_get hg]
          exact stat_writeFile_of_ne ns hn ms hms
      · exact stat_cons_set_of_ne hm es node ms

/-- A file that is written again is as if it had been written once. -/
theorem writeFile_writeFile {data : Bytes} (data' : Bytes) : ∀ (p : List Name) {root root' : Node},
    root.writeFile data p = some root' → root'.writeFile data' p = root.writeFile data' p
  | [], root, _, h => by simp [writeFile_nil] at h
  | n :: ns, _, _, h => by
    obtain ⟨es, node, rfl, rfl, ⟨rfl, rfl, hg⟩ | ⟨node', hg, hn⟩⟩ := writeFile_cases h
    · have hagain : (dir (es.set n (.file data))).writeFile data' [n] =
          some (.dir ((es.set n (.file data)).set n (.file data'))) := by
        simp [writeFile, es.get_set_self]
      rw [hagain, es.set_set]
      unfold writeFile
      split
      · exact absurd ‹_› (hg _)
      · rfl
      · contradiction
      · contradiction
    · obtain ⟨m, ms, rfl⟩ := List.exists_cons_of_ne_nil fun he : ns = [] => by
        rw [he, writeFile_nil] at hn
        cases hn
      have ih := writeFile_writeFile data' (m :: ms) hn
      simp only [writeFile, hg, es.get_set_self, es.set_set, ih]

/-- `WriteFile` writes over no directory, and below none that is not there. -/
theorem stat_ne_dir_of_writeFile {data : Bytes} : ∀ (p : List Name) {root root' : Node},
    root.writeFile data p = some root' → ∀ q : List Name, p <+: q → root.stat q ≠ .dir
  | [], root, _, h, _, _ => by simp [writeFile_nil] at h
  | n :: ns, _, _, h, q, hq => by
    obtain ⟨es, node, rfl, -, hor⟩ := writeFile_cases h
    match q with
    | [] => simp at hq
    | m :: ms =>
      obtain ⟨rfl, hms⟩ := List.cons_prefix_cons.mp hq
      obtain ⟨rfl, -, hg⟩ | ⟨node', hg, hn⟩ := hor
      · cases he : es.get n with
        | none => simp [stat_cons_of_get_eq_none he]
        | some node' =>
          rw [stat_cons_of_get he]
          cases node' with
          | dir es' => exact absurd he (hg es')
          | file _ => cases ms <;> simp [stat]
      · rw [stat_cons_of_get hg]
        exact stat_ne_dir_of_writeFile ns hn ms hms

/-- In a directory a name that is not one of a directory can be written. -/
theorem writeFile_isSome (data : Bytes) (n : Name) : ∀ (p : List Name) {root : Node},
    root.stat p = .dir → root.stat (p ++ [n]) ≠ .dir → (root.writeFile data (p ++ [n])).isSome
  | [], .file _, h, _ => by simp [stat] at h
  | _ :: _, .file _, h, _ => by simp [stat] at h
  | [], .dir es, _, hn => by
    show (writeFile data [n] (.dir es)).isSome
    unfold writeFile
    split
    · rename_i hg
      exact absurd (stat_cons_of_get hg []) hn
    · rfl
    · rename_i h _
      cases h
    · rename_i h _
      cases h
  | m :: ms, .dir es, h, hn => by
    cases hg : es.get m with
    | none => simp [stat_cons_of_get_eq_none hg] at h
    | some node =>
      rw [stat_cons_of_get hg] at h
      rw [List.cons_append, stat_cons_of_get hg] at hn
      have ih := writeFile_isSome data n ms h hn
      obtain ⟨k, ks, hk⟩ := List.exists_cons_of_ne_nil (l := ms ++ [n]) (by simp)
      rw [List.cons_append, hk, writeFile.eq_def]
      rw [hk] at ih
      simpa only [hg, Option.isSome_map] using ih

/-- A tree with the directories on one path, and nothing else. -/
theorem exists_bare (p : List Name) : ∃ root : Node, ∀ q, root.stat q = if q <+: p then .dir else .missing := by
  have empty : ∀ q, (dir .nil).stat q = if q = [] then .dir else .missing := fun q => by
    cases q <;> simp [stat, Entries.get]
  have made : ((dir .nil).mkdirAll p).isSome := mkdirAll_isSome p fun q _ => by
    rw [empty]
    split
    · exact .inl rfl
    · exact .inr rfl
  obtain ⟨root, hroot⟩ := Option.isSome_iff_exists.mp made
  refine ⟨root, fun q => ?_⟩
  rw [stat_mkdirAll p hroot]
  by_cases hq : q <+: p
  · rw [if_pos hq, if_pos hq]
  · rw [if_neg hq, if_neg hq, empty, if_neg fun he : q = [] => hq (by rw [he]; exact List.nil_prefix)]

/-- The node at the end of a path. -/
def find : List Name → Node → Option Node
  | [], node => some node
  | _ :: _, .file _ => none
  | n :: ns, .dir es => (es.get n).bind (find ns)

/-- What is there is reached over every part of its path. -/
theorem exists_find : ∀ (p : List Name) {q : List Name} {root : Node},
    root.stat (p ++ q) ≠ .missing → root.stat (p ++ q) ≠ .notDir → ∃ node, root.find p = some node
  | [], _, root, _, _ => ⟨root, rfl⟩
  | _ :: _, _, .file _, _, h => by simp [stat] at h
  | n :: ns, _, .dir es, hm, hd => by
    rw [List.cons_append] at hm hd
    cases hg : es.get n with
    | none => exact absurd (stat_cons_of_get_eq_none hg _) hm
    | some node =>
      rw [stat_cons_of_get hg] at hm hd
      rw [find, hg]
      exact exists_find ns hm hd

theorem stat_of_find : ∀ (p : List Name) {root node : Node}, root.find p = some node → ∀ q : List Name,
    root.stat (p ++ q) = node.stat q
  | [], _, _, h, q => by
    cases h
    rfl
  | _ :: _, .file _, _, h, _ => by simp [find] at h
  | n :: ns, .dir es, node, h, q => by
    obtain ⟨node', hg, hn⟩ := Option.bind_eq_some_iff.mp h
    rw [List.cons_append, stat_cons_of_get hg]
    exact stat_of_find ns hn q

theorem find_of_stat_file {data : Bytes} (p : List Name) {q : List Name} {root : Node}
    (h : root.stat (p ++ q) = .file data) : ∃ node, root.find p = some node :=
  exists_find p (by rw [h]; simp) (by rw [h]; simp)

/-- The way to a directory goes through directories. -/
theorem stat_dir_of_append (p : List Name) {q : List Name} {root : Node} (h : root.stat (p ++ q) = .dir) :
    root.stat p = .dir := by
  obtain ⟨node, hn⟩ := exists_find p (by rw [h]; simp) (by rw [h]; simp)
  have hp : root.stat p = node.stat [] := by rw [← stat_of_find p hn, List.append_nil]
  rw [stat_of_find p hn] at h
  rw [hp]
  cases node with
  | dir es => rfl
  | file data => cases q <;> simp [stat] at h

end Node

/-! ### What a walk finds -/

theorem visitNode_subset {path : Text} {n : Name} {node : Node} : ∀ es : Entries, es.get n = some node →
    visitNode (join [path, n.val]) node ⊆ visitEntries path es
  | .nil, h => nomatch h
  | .cons m node' rest, h => by
    unfold Entries.get at h
    unfold visitEntries
    by_cases hm : m = n
    · rw [if_pos hm] at h
      cases h
      rw [hm]
      exact List.subset_append_left _ _
    · rw [if_neg hm] at h
      exact List.subset_append_of_subset_right _ (visitNode_subset rest h)

theorem mem_visitNode_of_stat {data : Bytes} : ∀ (ns : List Name) {path : Text} {node : Node}, path ≠ [] →
    node.stat ns = .file data →
    (if ns = [] then path else ((locate path).enter ns).render, Node.file data) ∈ visitNode path node
  | [], path, .file data', _, h => by
    cases h
    simp [visitNode]
  | [], _, .dir _, _, h => by simp [Node.stat] at h
  | _ :: _, _, .file _, _, h => by simp [Node.stat] at h
  | n :: ns, path, .dir es, hp, h => by
    cases hg : es.get n with
    | none => simp [Node.stat_cons_of_get_eq_none hg] at h
    | some node =>
      rw [Node.stat_cons_of_get hg] at h
      have hj := join_name hp n
      have hne : join [path, n.val] ≠ [] := hj ▸ render_ne_nil _
      have ih := mem_visitNode_of_stat ns hne h
      have he : (if ns = [] then join [path, n.val] else ((locate (join [path, n.val])).enter ns).render) =
          ((locate path).enter (n :: ns)).render := by
        rw [hj, locate_render, enter_enter]
        by_cases hns : ns = []
        · rw [if_pos hns, hns]
        · rw [if_neg hns, List.singleton_append]
      rw [he] at ih
      rw [if_neg (List.cons_ne_nil _ _), visitNode]
      exact List.mem_cons_of_mem _ (visitNode_subset es hg ih)

/-- A file with one of the extensions is found. -/
theorem mem_walk_of_stat {dir : Text} (hd : dir ≠ []) {ns : List Name} (hns : ns ≠ []) {node : Node}
    {data : Bytes}
    {exts : List Text} (hext : hasExts ((locate dir).enter ns).render exts = true)
    (h : node.stat ns = .file data) : (((locate dir).enter ns).render, data) ∈ walk dir node exts := by
  have hv := mem_visitNode_of_stat ns hd h
  rw [if_neg hns] at hv
  exact List.mem_filterMap.mpr ⟨_, hv, by rw [if_pos hext]⟩

theorem hasExts_of_mem_walk {root : Text} {node : Node} {exts : List Text} {v : Text × Bytes}
    (h : v ∈ walk root node exts) : hasExts v.1 exts = true := by
  obtain ⟨w, -, hw⟩ := List.mem_filterMap.mp h
  split at hw
  · rename_i hext
    split at hw <;> cases hw
    exact hext
  · cases hw

/-! ### Calls -/

/-- A call that changes the tree. -/
inductive Call
  | mkdirAll (path : Text)
  | writeFile (path : Text) (data : Bytes)
deriving DecidableEq

/-- The tree, and a process that works on it. -/
structure FileSystem where
  root : Node
  /-- Its working directory. -/
  cwd : List Name
  /-- The calls it has made. -/
  calls : List Call

/-- What goes wrong, after the calls made so far. -/
structure Faults where
  /-- After how many steps a call fails, none when nothing disturbs it. To make a
  directory is a step, to open a file, and to write a byte. -/
  call : List Call → Call → Option ℕ
  /-- `os.Stat` fails otherwise than by finding nothing. -/
  stat : List Call → Text → Bool
  /-- The text of a call's error. -/
  text : Call → Text

namespace FileSystem

variable (F : Faults) (fs : FileSystem)

def place (path : Text) : List Name := absolute fs.cwd (locate path)

/-- `os.IsNotExist` of the error that `os.Stat` returns. -/
def notExist (path : Text) : Bool :=
  !F.stat fs.calls path && (path = [] || fs.root.stat (fs.place path) = .missing)

/-- A call that makes `whole` of the tree, or fails after `k` steps with `part k`. -/
def attempt (call : Call) (whole : Option Node) (part : ℕ → Option Node) : Option Text × FileSystem :=
  let fs' := { fs with calls := fs.calls ++ [call] }
  match F.call fs.calls call with
  | some k => (some (F.text call), { fs' with root := (part k).getD fs.root })
  | none =>
    match whole with
    | some root => (none, { fs' with root := root })
    | none => (some (F.text call), fs')

/-- `os.MkdirAll`. -/
def mkdirAll (path : Text) : Option Text × FileSystem :=
  fs.attempt F (.mkdirAll path) (fs.root.mkdirAll (fs.place path)) fun k =>
    fs.root.mkdirAll ((fs.place path).take k)

/-- `os.WriteFile`. -/
def writeFile (path : Text) (data : Bytes) : Option Text × FileSystem :=
  fs.attempt F (.writeFile path data)
    (if path = [] then none else fs.root.writeFile data (fs.place path)) fun k =>
      if path = [] ∨ k = 0 then none else fs.root.writeFile (data.take (k - 1)) (fs.place path)

/-- The entries `getAssets` lists, none when the directory cannot be walked. -/
def assets (dir : Text) : List File :=
  if dir = [] then []
  else
    match fs.root.find (fs.place dir) with
    | some node => getAssets dir node
    | none => []

variable {F fs} {call : Call} {whole : Option Node} {part : ℕ → Option Node} {path : Text} {data : Bytes}

@[simp] theorem attempt_cwd : (fs.attempt F call whole part).2.cwd = fs.cwd := by
  unfold attempt
  dsimp only
  split
  · rfl
  · split <;> rfl

@[simp] theorem attempt_calls : (fs.attempt F call whole part).2.calls = fs.calls ++ [call] := by
  unfold attempt
  dsimp only
  split
  · rfl
  · split <;> rfl

/-- A call succeeds, or fails with what it has done until then. -/
theorem attempt_cases (F : Faults) (fs : FileSystem) {call : Call} {whole : Option Node}
    {part : ℕ → Option Node} :
    ((fs.attempt F call whole part).1 = none ∧ whole = some (fs.attempt F call whole part).2.root) ∨
    ((fs.attempt F call whole part).1 ≠ none ∧ ((fs.attempt F call whole part).2.root = fs.root ∨
      ∃ k, F.call fs.calls call = some k ∧ part k = some (fs.attempt F call whole part).2.root)) := by
  unfold attempt
  dsimp only
  split
  · rename_i k hk
    cases hp : part k with
    | none => exact .inr ⟨by simp, .inl rfl⟩
    | some root => exact .inr ⟨by simp, .inr ⟨k, hk, hp⟩⟩
  · split
    · exact .inl ⟨rfl, rfl⟩
    · exact .inr ⟨by simp, .inl rfl⟩

/-- What nothing disturbs fails only where the tree does not take it. -/
theorem attempt_eq_none (hc : F.call fs.calls call = none) (hw : whole.isSome) :
    (fs.attempt F call whole part).1 = none := by
  obtain ⟨root, rfl⟩ := Option.isSome_iff_exists.mp hw
  simp only [attempt, hc]

@[simp] theorem mkdirAll_cwd : (fs.mkdirAll F path).2.cwd = fs.cwd := attempt_cwd

@[simp] theorem mkdirAll_calls : (fs.mkdirAll F path).2.calls = fs.calls ++ [.mkdirAll path] := attempt_calls

@[simp] theorem writeFile_cwd : (fs.writeFile F path data).2.cwd = fs.cwd := attempt_cwd

@[simp] theorem writeFile_calls : (fs.writeFile F path data).2.calls = fs.calls ++ [.writeFile path data] :=
  attempt_calls

theorem mkdirAll_cases (F : Faults) (fs : FileSystem) (path : Text) :
    ((fs.mkdirAll F path).1 = none ∧ fs.root.mkdirAll (fs.place path) = some (fs.mkdirAll F path).2.root) ∨
    ((fs.mkdirAll F path).1 ≠ none ∧ ((fs.mkdirAll F path).2.root = fs.root ∨
      ∃ k, fs.root.mkdirAll ((fs.place path).take k) = some (fs.mkdirAll F path).2.root)) := by
  rcases attempt_cases F fs with h | ⟨hn, h | ⟨k, -, hk⟩⟩
  · exact .inl h
  · exact .inr ⟨hn, .inl h⟩
  · exact .inr ⟨hn, .inr ⟨k, hk⟩⟩

theorem writeFile_cases (F : Faults) (fs : FileSystem) (path : Text) (data : Bytes) :
    ((fs.writeFile F path data).1 = none ∧ path ≠ [] ∧
      fs.root.writeFile data (fs.place path) = some (fs.writeFile F path data).2.root) ∨
    ((fs.writeFile F path data).1 ≠ none ∧ ((fs.writeFile F path data).2.root = fs.root ∨
      F.call fs.calls (.writeFile path data) ≠ none ∧
        ∃ k, fs.root.writeFile (data.take k) (fs.place path) = some (fs.writeFile F path data).2.root)) := by
  rcases attempt_cases F fs with ⟨hn, h⟩ | ⟨hn, h | ⟨k, hf, hk⟩⟩
  · exact .inl ⟨hn, Option.ite_none_left_eq_some.mp h⟩
  · exact .inr ⟨hn, .inl h⟩
  · exact .inr ⟨hn, .inr ⟨by simp [hf], k - 1, (Option.ite_none_left_eq_some.mp hk).2⟩⟩

/-- Whether it succeeds or not, `MkdirAll` makes directories on its path where
there was nothing, and nothing else. -/
theorem stat_after_mkdirAll (F : Faults) (fs : FileSystem) (path : Text) (q : List Name) :
    (fs.mkdirAll F path).2.root.stat q = fs.root.stat q ∨
    (q <+: fs.place path ∧ fs.root.stat q = .missing ∧ (fs.mkdirAll F path).2.root.stat q = .dir) := by
  have made : ∀ {p root'}, p <+: fs.place path → fs.root.mkdirAll p = some root' →
      root'.stat q = fs.root.stat q ∨
        (q <+: fs.place path ∧ fs.root.stat q = .missing ∧ root'.stat q = .dir) := by
    intro p root' hp h
    have ha := Node.stat_mkdirAll p h q
    by_cases hq : q <+: p
    · rw [if_pos hq] at ha
      rcases Node.stat_of_mkdirAll p h q hq with hb | hb
      · exact .inl (ha.trans hb.symm)
      · exact .inr ⟨hq.trans hp, hb, ha⟩
    · rw [if_neg hq] at ha
      exact .inl ha
  rcases mkdirAll_cases F fs path with ⟨-, h⟩ | ⟨-, h | ⟨k, h⟩⟩
  · exact made List.prefix_rfl h
  · exact .inl (by rw [h])
  · exact made (List.take_prefix k _) h

theorem mkdirAll_dir (h : (fs.mkdirAll F path).1 = none) :
    (fs.mkdirAll F path).2.root.stat (fs.place path) = .dir := by
  rcases mkdirAll_cases F fs path with ⟨-, hw⟩ | ⟨hne, -⟩
  · rw [Node.stat_mkdirAll _ hw, if_pos List.prefix_rfl]
  · exact absurd h hne

/-- Whether it succeeds or not, `WriteFile` changes nothing beside its path. -/
theorem stat_after_writeFile {q : List Name} (hq : ¬ fs.place path <+: q) :
    (fs.writeFile F path data).2.root.stat q = fs.root.stat q := by
  rcases writeFile_cases F fs path data with ⟨-, -, h⟩ | ⟨-, h | ⟨-, k, h⟩⟩
  · exact Node.stat_writeFile_of_ne _ h q hq
  · rw [h]
  · exact Node.stat_writeFile_of_ne _ h q hq

theorem writeFile_file (h : (fs.writeFile F path data).1 = none) :
    (fs.writeFile F path data).2.root.stat (fs.place path) = .file data := by
  rcases writeFile_cases F fs path data with ⟨-, -, hw⟩ | ⟨hne, -⟩
  · exact Node.stat_writeFile_self _ hw
  · exact absurd h hne

/-- The empty path is no file's. -/
theorem writeFile_ne_nil (h : (fs.writeFile F path data).1 = none) : path ≠ [] := by
  rcases writeFile_cases F fs path data with ⟨-, hne, -⟩ | ⟨hn, -⟩
  · exact hne
  · exact absurd h hn

/-- Where a write that nothing disturbs fails it changes nothing. -/
theorem writeFile_root_of_ne_none (hf : F.call fs.calls (.writeFile path data) = none)
    (h : (fs.writeFile F path data).1 ≠ none) : (fs.writeFile F path data).2.root = fs.root := by
  rcases writeFile_cases F fs path data with ⟨hn, -, -⟩ | ⟨-, h | ⟨hk, -⟩⟩
  · exact absurd hn h
  · exact h
  · exact absurd hf hk

/-- What is a directory stays one. -/
theorem dir_after_mkdirAll {q : List Name} (h : fs.root.stat q = .dir) :
    (fs.mkdirAll F path).2.root.stat q = .dir := by
  rcases stat_after_mkdirAll F fs path q with he | ⟨-, -, he⟩
  · exact he.trans h
  · exact he

theorem dir_after_writeFile {q : List Name} (h : fs.root.stat q = .dir) :
    (fs.writeFile F path data).2.root.stat q = .dir := by
  by_cases hq : fs.place path <+: q
  · rcases writeFile_cases F fs path data with ⟨-, -, hw⟩ | ⟨-, hr | ⟨-, k, hw⟩⟩
    · exact absurd h (Node.stat_ne_dir_of_writeFile _ hw q hq)
    · rw [hr, h]
    · exact absurd h (Node.stat_ne_dir_of_writeFile _ hw q hq)
  · rw [stat_after_writeFile hq, h]

end FileSystem

end Content
end QuakeKube
