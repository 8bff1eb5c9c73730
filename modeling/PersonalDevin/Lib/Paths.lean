import PersonalDevin.Lib.Dict
import Mathlib.Data.List.Infix

/-!
# Paths and symbolic links

A file system maps locations, which are the names from the root down, to files, directories and
symbolic links. A path is turned into a location in two ways. `resolve` is what a library does ahead
of a call: it follows links and takes `..` away, over what is missing too. At a link that leads back to
itself it stops following, and takes the names that are left as they are written. `walk` is what the
system does within a call: every name but the last has to be there, and only so many links are followed.
Where no link leads back to itself, nothing is left to follow on a location that `resolve` returns, so
that the calls made there reach this location and no other. There are no hard links.
-/

namespace Lib

abbrev Location := List String

/-- A path as it is written: from the root or from some directory, with `..` among its names. -/
structure PathName where
  absolute : Bool
  names : List String
  deriving DecidableEq

/-- Where a path starts that is met in a directory. -/
def PathName.start (path : PathName) (here : Location) : Location :=
  if path.absolute then [] else here

inductive Node (γ : Type) where
  | file (content : γ)
  | directory
  | link (target : PathName)

abbrev FileSystem (γ : Type) := Dict Location (Node γ)

inductive Errno where
  | enoent
  | enotdir
  | eexist
  | eisdir
  | eloop
  deriving DecidableEq

namespace FileSystem

variable {γ : Type}

/-- The root is always there. -/
def node (fs : FileSystem γ) (l : Location) : Option (Node γ) :=
  if l = [] then some .directory else fs.get? l

def put (fs : FileSystem γ) (l : Location) (node : Node γ) : FileSystem γ := fs.set l node

def link? (fs : FileSystem γ) (l : Location) : Option PathName :=
  match fs.node l with
  | some (.link target) => some target
  | _ => none

theorem node_put (fs : FileSystem γ) {l : Location} (hl : l ≠ []) (node : Node γ) (l' : Location) :
    FileSystem.node (fs.put l node) l' = if l' = l then some node else fs.node l' := by
  by_cases hroot : l' = []
  · have hne : l' ≠ l := fun h => hl (h ▸ hroot)
    rw [if_neg hne, FileSystem.node, FileSystem.node, if_pos hroot, if_pos hroot]
  · rw [FileSystem.node, FileSystem.node, if_neg hroot, if_neg hroot]
    exact Dict.get?_set fs l node l'

theorem mem_keys_of_link? {fs : FileSystem γ} {l : Location} {target : PathName}
    (h : fs.link? l = some target) : l ∈ fs.keys := by
  rw [link?, FileSystem.node] at h
  split at h
  · rename_i hnode
    split at hnode
    · cases hnode
    · rw [← Dict.get?_isSome_iff, hnode]
      rfl
  · cases h

/-! ### Resolving ahead of a call -/

/-- How far a path is followed: to its end, or to a link that leads back to itself, with the names
behind it. -/
inductive Reached where
  | resolved (l : Location)
  | looped (l : Location) (names : List String)

/-- Names taken as they are written. -/
def normalize (l : Location) (names : List String) : Location :=
  names.foldl (fun here name => if name = ".." then here.dropLast else here ++ [name]) l

def Reached.location : Reached → Location
  | resolved l => l
  | looped l names => normalize l names

section

variable (link? : Location → Option PathName)

/-- One path, with the following of a link left open; `active` are the links that are being followed. -/
def resolveNames (follow : List Location → Location → List String → Reached)
    (active : List Location) : Location → List String → Reached
  | here, [] => .resolved here
  | here, name :: rest =>
      if name = ".." then resolveNames follow active here.dropLast rest
      else
        match link? (here ++ [name]) with
        | none => resolveNames follow active (here ++ [name]) rest
        | some target =>
            if here ++ [name] ∈ active then .looped (here ++ [name]) rest
            else
              match follow ((here ++ [name]) :: active) (target.start here) target.names with
              | .looped l names => .looped l (names ++ rest)
              | .resolved reached => resolveNames follow active reached rest

def resolveFrom : ℕ → List Location → Location → List String → Reached
  | 0 => resolveNames link? fun _ => .looped
  | depth + 1 => resolveNames link? (resolveFrom depth)

end

/-- How far the names are followed. A link is never followed within itself, so that there is no need to
go deeper than there are entries. -/
def reach (fs : FileSystem γ) : Location → List String → Reached :=
  resolveFrom fs.link? fs.keys.length []

theorem resolveNames_congr {link? : Location → Option PathName} {active : List Location}
    {follow follow' : List Location → Location → List String → Reached}
    (h : ∀ l target, link? l = some target → l ∉ active →
      follow (l :: active) = follow' (l :: active)) (names : List String) (here : Location) :
    resolveNames link? follow active here names = resolveNames link? follow' active here names := by
  induction names generalizing here with
  | nil => rfl
  | cons name rest ih =>
      rw [resolveNames, resolveNames, ih here.dropLast, ih (here ++ [name])]
      split
      · rfl
      · split
        · rfl
        · rename_i target htarget
          split
          · rfl
          · rename_i hactive
            rw [h _ target htarget hactive]
            simp only [ih]

/-- When all links but the active ones fit into the depth, more depth changes nothing. -/
theorem resolveFrom_succ {link? : Location → Option PathName} {links : List Location}
    (hlinks : ∀ l target, link? l = some target → l ∈ links) {depth : ℕ} {active : List Location}
    (hnodup : active.Nodup) (hactive : active ⊆ links) (hdepth : links.length ≤ depth + active.length) :
    resolveFrom link? depth active = resolveFrom link? (depth + 1) active := by
  induction depth generalizing active with
  | zero =>
      funext here names
      refine resolveNames_congr (fun l target htarget hnot => absurd ?_ hnot) names here
      have hperm : active.Perm links :=
        (List.subperm_of_subset hnodup hactive).perm_of_length_le (by omega)
      exact hperm.mem_iff.2 (hlinks l target htarget)
  | succ depth ih =>
      funext here names
      refine resolveNames_congr (fun l target htarget hnot => ?_) names here
      apply ih (List.nodup_cons.2 ⟨hnot, hnodup⟩)
      · exact List.cons_subset.2 ⟨hlinks l target htarget, hactive⟩
      · rw [List.length_cons]
        omega

theorem reach_eq_of_le (fs : FileSystem γ) {depth : ℕ} (h : fs.keys.length ≤ depth) :
    fs.reach = resolveFrom fs.link? depth [] := by
  induction depth, h using Nat.le_induction with
  | base => rfl
  | succ depth hle ih =>
      rw [ih, resolveFrom_succ (fun _ _ => mem_keys_of_link?) List.nodup_nil
        (List.nil_subset fs.keys) (by simpa using hle)]

/-- How far a path is followed depends on the links only. -/
theorem reach_congr {fs fs' : FileSystem γ} (h : fs.link? = fs'.link?) : fs.reach = fs'.reach := by
  rw [reach_eq_of_le fs (Nat.le_max_left fs.keys.length fs'.keys.length),
    reach_eq_of_le fs' (Nat.le_max_right fs.keys.length fs'.keys.length), h]

/-- No path meets a link that leads back to itself. -/
def Unlooped (fs : FileSystem γ) : Prop := ∀ here names, ∃ l, fs.reach here names = .resolved l

theorem Unlooped.congr {fs fs' : FileSystem γ} (h : fs.Unlooped) (hlink : fs.link? = fs'.link?) :
    fs'.Unlooped := fun here names => reach_congr hlink ▸ h here names

/-- Links whose targets meet no other link do not lead back to themselves. -/
theorem unlooped_of_plain {fs : FileSystem γ} (h : ∀ l target, fs.link? l = some target →
      ∀ follow active, ∃ reached,
        resolveNames fs.link? follow active (target.start l.dropLast) target.names
          = .resolved reached) : fs.Unlooped := by
  intro here names
  rw [reach_eq_of_le fs (Nat.le_succ fs.keys.length), resolveFrom]
  induction names generalizing here with
  | nil => exact ⟨here, rfl⟩
  | cons name rest ih =>
      rw [resolveNames]
      split
      · exact ih here.dropLast
      · split
        · exact ih (here ++ [name])
        · rename_i target htarget
          rw [if_neg List.not_mem_nil]
          have hplain := h _ target htarget
          rw [List.dropLast_concat] at hplain
          have hfollow : ∃ reached, resolveFrom fs.link? fs.keys.length [here ++ [name]]
              (target.start here) target.names = .resolved reached := by
            cases fs.keys.length with
            | zero => exact hplain _ _
            | succ depth => exact hplain _ _
          obtain ⟨reached, hreached⟩ := hfollow
          rw [hreached]
          exact ih reached

/-- No link is met on the way to the location, and no name of it goes back. -/
structure Canonical (link? : Location → Option PathName) (l : Location) : Prop where
  link : ∀ l', l' <+: l → link? l' = none
  name : ".." ∉ l

namespace Canonical

variable {link? : Location → Option PathName}

theorem nil (h : link? [] = none) : Canonical link? [] where
  link _ hl' := List.prefix_nil.1 hl' ▸ h
  name := List.not_mem_nil

theorem of_le {l l' : Location} (h : Canonical link? l) (hl' : l' <+: l) :
    Canonical link? l' where
  link l'' hl'' := h.link l'' (hl''.trans hl')
  name hmem := h.name (hl'.subset hmem)

theorem concat {l : Location} {name : String} (h : Canonical link? l) (hname : name ≠ "..")
    (hlink : link? (l ++ [name]) = none) : Canonical link? (l ++ [name]) where
  link l' hl' := by
    rcases List.prefix_concat_iff.1 hl' with rfl | hl'
    · exact hlink
    · exact h.link l' hl'
  name hmem := by
    rcases List.mem_append.1 hmem with hold | hnew
    · exact h.name hold
    · exact hname (List.mem_singleton.1 hnew).symm

theorem start {here : Location} (hroot : link? [] = none) (h : Canonical link? here)
    (path : PathName) : Canonical link? (path.start here) := by
  rw [PathName.start]
  split
  · exact nil hroot
  · exact h

end Canonical

theorem resolveNames_canonical {link? : Location → Option PathName} (hroot : link? [] = none)
    {follow : List Location → Location → List String → Reached}
    (hfollow : ∀ active here names l, Canonical link? here → follow active here names = .resolved l →
      Canonical link? l) {active : List Location} {names : List String} {here l : Location}
    (hhere : Canonical link? here) (h : resolveNames link? follow active here names = .resolved l) :
    Canonical link? l := by
  induction names generalizing here with
  | nil => exact Reached.resolved.inj h ▸ hhere
  | cons name rest ih =>
      rw [resolveNames] at h
      split at h
      · exact ih (hhere.of_le (List.dropLast_prefix here)) h
      · rename_i hname
        split at h
        · rename_i hlink
          exact ih (hhere.concat hname hlink) h
        · rename_i target htarget
          split at h
          · cases h
          · split at h
            · cases h
            · rename_i reached hreached
              exact ih (hfollow _ _ _ _ (hhere.start hroot target) hreached) h

theorem resolveFrom_canonical {link? : Location → Option PathName} (hroot : link? [] = none)
    {depth : ℕ} {active : List Location} {names : List String} {here l : Location}
    (hhere : Canonical link? here) (h : resolveFrom link? depth active here names = .resolved l) :
    Canonical link? l := by
  induction depth generalizing active names here l with
  | zero => exact resolveNames_canonical hroot (fun _ _ _ _ _ hlooped => by cases hlooped) hhere h
  | succ depth ih => exact resolveNames_canonical hroot (fun _ _ _ _ => ih) hhere h

theorem link?_nil (fs : FileSystem γ) : fs.link? [] = none := rfl

/-! ### Walking within a call -/

/-- One path without following a link; what is left after a link is handed on with its target. -/
def walkNames (fs : FileSystem γ) (follow : Location → List String → Except Errno Location) :
    Location → List String → Except Errno Location
  | here, [] => .ok here
  | here, name :: rest =>
      match fs.node here with
      | none => .error .enoent
      | some (.file _) => .error .enotdir
      | some (.link _) => .error .enotdir
      | some .directory =>
          if name = ".." then walkNames fs follow here.dropLast rest
          else
            match fs.node (here ++ [name]) with
            | none => if rest = [] then .ok (here ++ [name]) else .error .enoent
            | some (.link target) => follow (target.start here) (target.names ++ rest)
            | some (.file _) => walkNames fs follow (here ++ [name]) rest
            | some .directory => walkNames fs follow (here ++ [name]) rest

def walkFrom (fs : FileSystem γ) : ℕ → Location → List String → Except Errno Location
  | 0 => walkNames fs fun _ _ => .error .eloop
  | links + 1 => walkNames fs (walkFrom fs links)

/-- The location a call on a path is about; it need not exist, but the directory it is in does. -/
def walk (fs : FileSystem γ) (cwd : Location) (path : PathName) : Except Errno Location :=
  walkFrom fs 40 (path.start cwd) path.names

def pathTo (l : Location) : PathName := ⟨true, l⟩

/-- The path without links and `..`, as far as it can be followed. Nothing is returned when a call on
what is left comes to too many links. -/
def resolve (fs : FileSystem γ) (cwd : Location) (path : PathName) : Option Location :=
  let l := (fs.reach (path.start cwd) path.names).location
  match fs.walk cwd (pathTo l) with
  | .error .eloop => none
  | _ => some l

/-- What a call on the path finds. -/
def stat (fs : FileSystem γ) (cwd : Location) (path : PathName) : Option (Node γ) :=
  match fs.walk cwd path with
  | .ok l => fs.node l
  | .error _ => none

/-! ### Calls -/

def isDir (fs : FileSystem γ) (cwd : Location) (path : PathName) : Bool :=
  match fs.stat cwd path with
  | some .directory => true
  | _ => false

def isFile (fs : FileSystem γ) (cwd : Location) (path : PathName) : Bool :=
  match fs.stat cwd path with
  | some (.file _) => true
  | _ => false

def readFile (fs : FileSystem γ) (cwd : Location) (path : PathName) : Except Errno γ :=
  match fs.walk cwd path with
  | .error errno => .error errno
  | .ok l =>
      match fs.node l with
      | some (.file content) => .ok content
      | some .directory => .error .eisdir
      | some (.link _) => .error .eloop
      | none => .error .enoent

/-- A file is opened to be written, which makes it if it is not there, and filled. -/
def writeFile (fs : FileSystem γ) (cwd : Location) (path : PathName) (content : γ) :
    Except Errno (FileSystem γ) :=
  match fs.walk cwd path with
  | .error errno => .error errno
  | .ok l =>
      match fs.node l with
      | some .directory => .error .eisdir
      | _ => .ok (fs.put l (.file content))

/-- The names in a directory. -/
def children (fs : FileSystem γ) (l : Location) : List String :=
  fs.keys.filterMap fun l' => if l'.dropLast = l then l'.getLast? else none

def listDir (fs : FileSystem γ) (cwd : Location) (path : PathName) : Except Errno (List String) :=
  match fs.walk cwd path with
  | .error errno => .error errno
  | .ok l =>
      match fs.node l with
      | some .directory => .ok (fs.children l)
      | none => .error .enoent
      | some _ => .error .enotdir

/-- A directory is made where nothing is, not even a link. -/
def mkdir (fs : FileSystem γ) (cwd : Location) (path : PathName) : Except Errno (FileSystem γ) :=
  match path.names.getLast? with
  | none => .error .eexist
  | some name =>
      match fs.walk cwd { path with names := path.names.dropLast } with
      | .error errno => .error errno
      | .ok parent =>
          match fs.node parent with
          | none => .error .enoent
          | some (.file _) => .error .enotdir
          | some (.link _) => .error .enotdir
          | some .directory =>
              if name = ".." ∨ (fs.node (parent ++ [name])).isSome then .error .eexist
              else .ok (fs.put (parent ++ [name]) .directory)

/-- A directory that is there already is as good as made. -/
def existOk (fs : FileSystem γ) (cwd : Location) (path : PathName) (errno : Errno) :
    Except Errno Unit × FileSystem γ :=
  if errno ≠ .enoent ∧ fs.isDir cwd path then (.ok (), fs) else (.error errno, fs)

/-- A directory with those it is in; the names come last first. What was made stays when a later one
cannot be made. -/
def mkdirParents (fs : FileSystem γ) (cwd : Location) (absolute : Bool) :
    List String → Except Errno Unit × FileSystem γ
  | [] => existOk fs cwd ⟨absolute, []⟩ .eexist
  | name :: parents =>
      let path : PathName := ⟨absolute, (name :: parents).reverse⟩
      match fs.mkdir cwd path with
      | .ok fs => (.ok (), fs)
      | .error errno =>
          if errno = .enoent then
            match mkdirParents fs cwd absolute parents with
            | (.error errno, fs) => (.error errno, fs)
            | (.ok (), fs) =>
                match fs.mkdir cwd path with
                | .ok fs => (.ok (), fs)
                | .error errno => existOk fs cwd path errno
          else existOk fs cwd path errno

/-! ### Calls on a location without links -/

def Above (fs : FileSystem γ) (l : Location) : Prop :=
  ∀ l', l' <+: l → l' ≠ l → fs.node l' = some .directory

theorem node_ne_link {fs : FileSystem γ} {l : Location} (h : fs.link? l = none) (target : PathName) :
    fs.node l ≠ some (.link target) := by
  intro hnode
  rw [link?, hnode] at h
  cases h

theorem forall_take_cons_iff {P : Location → Prop} (here : Location) (name : String)
    (rest : List String) :
    (∀ k < (name :: rest).length, P (here ++ (name :: rest).take k)) ↔
      P here ∧ ∀ k < rest.length, P ((here ++ [name]) ++ rest.take k) := by
  constructor
  · intro hall
    refine ⟨by simpa using hall 0 (Nat.succ_pos rest.length), fun k hk => ?_⟩
    rw [← List.append_cons]
    exact hall (k + 1) (Nat.succ_lt_succ hk)
  · rintro ⟨hhere, hall⟩ k hk
    cases k with
    | zero => simpa using hhere
    | succ k =>
        rw [List.take_succ_cons, List.append_cons]
        exact hall k (Nat.lt_of_succ_lt_succ hk)

theorem walkNames_ok_iff {fs : FileSystem γ}
    {follow : Location → List String → Except Errno Location} {names : List String}
    {here l : Location} (h : Canonical fs.link? (here ++ names)) :
    walkNames fs follow here names = .ok l ↔
      l = here ++ names ∧ ∀ k < names.length, fs.node (here ++ names.take k) = some .directory := by
  induction names generalizing here with
  | nil =>
      rw [walkNames, List.append_nil]
      exact ⟨fun hok => ⟨(Except.ok.inj hok).symm, fun k hk => absurd hk (Nat.not_lt_zero k)⟩,
        fun hl => hl.1 ▸ rfl⟩
  | cons name rest ih =>
      have hsplit : here ++ name :: rest = (here ++ [name]) ++ rest := List.append_cons here name rest
      have hname : name ≠ ".." := fun heq =>
        h.name (List.mem_append_right here (heq ▸ List.mem_cons_self))
      have hlink : fs.link? (here ++ [name]) = none :=
        h.link _ (hsplit ▸ List.prefix_append (here ++ [name]) rest)
      have hrest := forall_take_cons_iff (P := fun l => fs.node l = some .directory) here name rest
      rw [hrest, hsplit, walkNames]
      have hnext := @ih (here ++ [name]) (hsplit ▸ h)
      rcases hhere : fs.node here with _ | ⟨_ | _ | _⟩
      · simp
      · simp
      · rw [if_neg hname]
        rcases hthere : fs.node (here ++ [name]) with _ | ⟨_ | _ | target⟩
        · cases rest with
          | nil => simp [eq_comm]
          | cons next rest =>
              have hfalse : ¬ ∀ k < (next :: rest).length,
                  fs.node ((here ++ [name]) ++ (next :: rest).take k) = some .directory := by
                intro hall
                have hzero := hall 0 (Nat.succ_pos rest.length)
                rw [List.take_zero, List.append_nil, hthere] at hzero
                cases hzero
              rw [if_neg (List.cons_ne_nil next rest)]
              exact ⟨(fun herror => by cases herror), fun hall => absurd hall.2.2 hfalse⟩
        · simpa using hnext
        · simpa using hnext
        · exact absurd hthere (node_ne_link hlink target)
      · simp

theorem forall_take_iff {fs : FileSystem γ} {l : Location} :
    (∀ k < l.length, fs.node (l.take k) = some .directory) ↔ fs.Above l := by
  constructor
  · intro h l' hle hne
    rw [List.prefix_iff_eq_take.1 hle]
    refine h l'.length (lt_of_le_of_ne hle.length_le fun hlength => hne ?_)
    exact hle.eq_of_length hlength
  · intro h k hk
    refine h _ (List.take_prefix k l) fun heq => ?_
    have hlength := congrArg List.length heq
    rw [List.length_take] at hlength
    omega

theorem walk_pathTo_iff {fs : FileSystem γ} {cwd l l' : Location} (h : Canonical fs.link? l) :
    fs.walk cwd (pathTo l) = .ok l' ↔ l' = l ∧ fs.Above l := by
  rw [← forall_take_iff]
  exact @walkNames_ok_iff γ fs _ l [] l' h

/-- A walk over names without links does not come to too many of them. -/
theorem walkNames_ne_eloop {fs : FileSystem γ}
    {follow : Location → List String → Except Errno Location} {names : List String} {here : Location}
    (h : Canonical fs.link? (here ++ names)) : walkNames fs follow here names ≠ .error .eloop := by
  induction names generalizing here with
  | nil => exact fun hloop => nomatch hloop
  | cons name rest ih =>
      have hsplit : here ++ name :: rest = (here ++ [name]) ++ rest := List.append_cons here name rest
      have hlink : fs.link? (here ++ [name]) = none :=
        h.link _ (hsplit ▸ List.prefix_append (here ++ [name]) rest)
      have hname : name ≠ ".." := fun heq =>
        h.name (List.mem_append_right here (heq ▸ List.mem_cons_self))
      have hnext := @ih (here ++ [name]) (hsplit ▸ h)
      rw [walkNames]
      rcases fs.node here with _ | ⟨_ | _ | _⟩
      · exact fun hloop => nomatch hloop
      · exact fun hloop => nomatch hloop
      · rw [if_neg hname]
        rcases hthere : fs.node (here ++ [name]) with _ | ⟨_ | _ | target⟩
        · dsimp only
          split <;> exact fun hloop => nomatch hloop
        · exact hnext
        · exact hnext
        · exact absurd hthere (node_ne_link hlink target)
      · exact fun hloop => nomatch hloop

/-- Where no link leads back to itself a path resolves to a location on the way to which there is no
link. -/
theorem Unlooped.resolve {fs : FileSystem γ} (h : fs.Unlooped) {cwd : Location} {path : PathName}
    (hstart : Canonical fs.link? (path.start cwd)) :
    ∃ l, fs.reach (path.start cwd) path.names = .resolved l ∧ fs.resolve cwd path = some l
      ∧ Canonical fs.link? l := by
  obtain ⟨l, hl⟩ := h (path.start cwd) path.names
  have hcanonical : Canonical fs.link? l := resolveFrom_canonical fs.link?_nil hstart hl
  refine ⟨l, hl, ?_, hcanonical⟩
  have hwalk : fs.walk cwd (pathTo l) ≠ .error .eloop :=
    @walkNames_ne_eloop γ fs _ l [] hcanonical
  rw [FileSystem.resolve, hl]
  dsimp only [Reached.location]
  split
  · rename_i heloop
    exact absurd heloop hwalk
  · rfl

theorem stat_pathTo_iff {fs : FileSystem γ} {l : Location} {node : Node γ}
    (h : Canonical fs.link? l) (cwd : Location) :
    fs.stat cwd (pathTo l) = some node ↔ fs.node l = some node ∧ fs.Above l := by
  rw [stat]
  rcases hwalk : fs.walk cwd (pathTo l) with errno | l'
  · constructor
    · intro hnone
      cases hnone
    · rintro ⟨-, habove⟩
      rw [(walk_pathTo_iff h).2 ⟨rfl, habove⟩] at hwalk
      cases hwalk
  · obtain ⟨rfl, habove⟩ := (walk_pathTo_iff h).1 hwalk
    exact ⟨fun hnode => ⟨hnode, habove⟩, fun hnode => hnode.1⟩

theorem isDir_pathTo_iff {fs : FileSystem γ} {cwd l : Location} (h : Canonical fs.link? l) :
    fs.isDir cwd (pathTo l) = true ↔ fs.node l = some .directory ∧ fs.Above l := by
  rw [← stat_pathTo_iff h cwd, isDir]
  split
  · rename_i hstat
    exact ⟨fun _ => hstat, fun _ => rfl⟩
  · rename_i hstat
    exact ⟨fun hfalse => (Bool.false_ne_true hfalse).elim, fun hdir => (hstat hdir).elim⟩

theorem readFile_pathTo_iff {fs : FileSystem γ} {cwd l : Location} {content : γ}
    (h : Canonical fs.link? l) :
    fs.readFile cwd (pathTo l) = .ok content ↔ fs.node l = some (.file content) ∧ fs.Above l := by
  rw [readFile]
  rcases hwalk : fs.walk cwd (pathTo l) with errno | l'
  · constructor
    · intro herror
      cases herror
    · rintro ⟨-, habove⟩
      rw [(walk_pathTo_iff h).2 ⟨rfl, habove⟩] at hwalk
      cases hwalk
  · obtain ⟨rfl, habove⟩ := (walk_pathTo_iff h).1 hwalk
    rcases hnode : fs.node l' with _ | ⟨_ | _ | _⟩ <;> simp [hnode, habove]

/-- A file is written where a file is or nothing, and nowhere else. -/
theorem writeFile_pathTo {fs fs' : FileSystem γ} {cwd l : Location} {content : γ}
    (h : Canonical fs.link? l) (hwrite : fs.writeFile cwd (pathTo l) content = .ok fs') :
    fs.Above l ∧ fs.node l ≠ some .directory ∧ fs' = fs.put l (.file content) := by
  rw [writeFile] at hwrite
  rcases hwalk : fs.walk cwd (pathTo l) with errno | l'
  · rw [hwalk] at hwrite
    cases hwrite
  · obtain ⟨rfl, habove⟩ := (walk_pathTo_iff h).1 hwalk
    rw [hwalk] at hwrite
    dsimp only at hwrite
    split at hwrite
    · cases hwrite
    · rename_i hnode
      exact ⟨habove, hnode, (Except.ok.inj hwrite).symm⟩

theorem mkdir_pathTo {fs fs' : FileSystem γ} {cwd l : Location} (h : Canonical fs.link? l)
    (hmkdir : fs.mkdir cwd (pathTo l) = .ok fs') :
    l ≠ [] ∧ fs.node l = none ∧ fs.Above l ∧ fs' = fs.put l .directory := by
  rw [mkdir] at hmkdir
  rcases List.eq_nil_or_concat l with rfl | ⟨parent, name, rfl⟩
  · cases hmkdir
  · rw [List.concat_eq_append] at h hmkdir ⊢
    have hnames : (pathTo (parent ++ [name])).names.getLast? = some name := List.getLast?_concat
    have hdrop : (pathTo (parent ++ [name])).names.dropLast = parent := List.dropLast_concat
    rw [hnames, hdrop] at hmkdir
    have hparent : Canonical fs.link? parent := h.of_le (List.prefix_append parent [name])
    rcases hwalk : fs.walk cwd (pathTo parent) with errno | l'
    · rw [show ({ pathTo (parent ++ [name]) with names := parent } : PathName) = pathTo parent
        from rfl, hwalk] at hmkdir
      cases hmkdir
    · obtain ⟨rfl, habove⟩ := (walk_pathTo_iff hparent).1 hwalk
      rw [show ({ pathTo (l' ++ [name]) with names := l' } : PathName) = pathTo l' from rfl,
        hwalk] at hmkdir
      dsimp only at hmkdir
      split at hmkdir
      · cases hmkdir
      · cases hmkdir
      · cases hmkdir
      · rename_i hdir
        split at hmkdir
        · cases hmkdir
        · rename_i hnew
          rw [not_or, Bool.not_eq_true, Option.isSome_eq_false_iff, Option.isNone_iff_eq_none] at hnew
          refine ⟨by simp, hnew.2, fun l'' hle hne => ?_, (Except.ok.inj hmkdir).symm⟩
          rcases List.prefix_concat_iff.1 hle with rfl | hle
          · exact absurd rfl hne
          · by_cases heq : l'' = l'
            · exact heq ▸ hdir
            · exact habove l'' hle heq

/-! ### What the calls leave -/

/-- Directories were made on the way to the location, and nothing else happened. -/
def Grown (l : Location) (fs fs' : FileSystem γ) : Prop :=
  ∀ l', fs'.node l' = fs.node l' ∨
    l' <+: l ∧ fs.node l' = none ∧ fs'.node l' = some .directory

namespace Grown

variable {l : Location} {fs fs' fs'' : FileSystem γ}

theorem refl (l : Location) (fs : FileSystem γ) : Grown l fs fs := fun _ => .inl rfl

theorem trans (h : Grown l fs fs') (h' : Grown l fs' fs'') : Grown l fs fs'' := by
  intro l'
  rcases h' l' with hsame | ⟨hle, hnone, hdir⟩
  · exact hsame ▸ h l'
  · rcases h l' with hsame | ⟨-, -, hdir'⟩
    · exact .inr ⟨hle, hsame ▸ hnone, hdir⟩
    · rw [hnone] at hdir'
      cases hdir'

theorem of_le {l' : Location} (h : Grown l' fs fs') (hle : l' <+: l) : Grown l fs fs' := by
  intro l''
  rcases h l'' with hsame | ⟨hle', hnone, hdir⟩
  · exact .inl hsame
  · exact .inr ⟨hle'.trans hle, hnone, hdir⟩

theorem node_of_some (h : Grown l fs fs') {l' : Location} {node : Node γ}
    (hnode : fs.node l' = some node) : fs'.node l' = some node := by
  rcases h l' with hsame | ⟨-, hnone, -⟩
  · exact hsame.trans hnode
  · rw [hnode] at hnone
    cases hnone

theorem link?_eq (h : Grown l fs fs') : fs'.link? = fs.link? := by
  funext l'
  rcases h l' with hsame | ⟨-, hnone, hdir⟩
  · rw [link?, link?, hsame]
  · rw [link?, link?, hnone, hdir]

theorem put {l : Location} (hl : l ≠ []) (hnone : fs.node l = none) :
    Grown l fs (fs.put l .directory) := by
  intro l'
  rw [node_put fs hl]
  split
  · rename_i heq
    exact .inr ⟨heq ▸ List.prefix_rfl, heq ▸ hnone, rfl⟩
  · exact .inl rfl

end Grown

theorem above_put {fs : FileSystem γ} {l : Location} (hl : l ≠ []) (node : Node γ)
    (h : fs.Above l) : FileSystem.Above (fs.put l node) l := by
  intro l' hle hne
  rw [node_put fs hl, if_neg hne]
  exact h l' hle hne

theorem existOk_grown {fs : FileSystem γ} {l : Location} (h : Canonical fs.link? l)
    (cwd : Location) (errno : Errno) :
    Grown l fs (fs.existOk cwd (pathTo l) errno).2
      ∧ ((fs.existOk cwd (pathTo l) errno).1 = .ok () →
        (fs.existOk cwd (pathTo l) errno).2.node l = some .directory
          ∧ (fs.existOk cwd (pathTo l) errno).2.Above l) := by
  rw [existOk]
  split
  · rename_i hdir
    exact ⟨.refl l fs, fun _ => (isDir_pathTo_iff h).1 hdir.2⟩
  · exact ⟨.refl l fs, (fun herror => by cases herror)⟩

theorem mkdir_grown {fs fs' : FileSystem γ} {cwd l : Location} (h : Canonical fs.link? l)
    (hmkdir : fs.mkdir cwd (pathTo l) = .ok fs') :
    Grown l fs fs' ∧ fs'.node l = some .directory ∧ fs'.Above l := by
  obtain ⟨hl, hnone, habove, rfl⟩ := mkdir_pathTo h hmkdir
  refine ⟨.put hl hnone, ?_, above_put hl .directory habove⟩
  rw [node_put fs hl, if_pos rfl]

theorem mkdirParents_names_grown {names : List String} {fs : FileSystem γ}
    (h : Canonical fs.link? names.reverse) (cwd : Location) :
    Grown names.reverse fs (fs.mkdirParents cwd true names).2
      ∧ ((fs.mkdirParents cwd true names).1 = .ok () →
        (fs.mkdirParents cwd true names).2.node names.reverse = some .directory
          ∧ (fs.mkdirParents cwd true names).2.Above names.reverse) := by
  induction names generalizing fs with
  | nil => exact existOk_grown h cwd .eexist
  | cons name parents ih =>
      have hle : parents.reverse <+: (name :: parents).reverse := by
        rw [List.reverse_cons]
        exact List.prefix_append _ _
      have hparents := (ih (h.of_le hle)).1
      rw [mkdirParents, show (⟨true, (name :: parents).reverse⟩ : PathName)
        = pathTo (name :: parents).reverse from rfl]
      generalize (name :: parents).reverse = l at *
      split
      · rename_i fs' hmkdir
        exact ⟨(mkdir_grown h hmkdir).1, fun _ => (mkdir_grown h hmkdir).2⟩
      · split
        · generalize fs.mkdirParents cwd true parents = above at hparents
          obtain ⟨errno | ⟨⟩, fs'⟩ := above
          · exact ⟨hparents.of_le hle, (fun herror => by cases herror)⟩
          · have hgrown := hparents.of_le hle
            have hcanonical : Canonical fs'.link? l := hgrown.link?_eq ▸ h
            dsimp only
            split
            · rename_i fs'' hmkdir
              exact ⟨hgrown.trans (mkdir_grown hcanonical hmkdir).1,
                fun _ => (mkdir_grown hcanonical hmkdir).2⟩
            · rename_i errno _
              have hexists := existOk_grown hcanonical cwd errno
              exact ⟨hgrown.trans hexists.1, hexists.2⟩
        · exact existOk_grown h cwd _

/-- Directories are made on the way to a location without links, and when none fails the location is
one of them. -/
theorem mkdirParents_grown {l : Location} {fs : FileSystem γ} (h : Canonical fs.link? l)
    (cwd : Location) :
    Grown l fs (fs.mkdirParents cwd true l.reverse).2
      ∧ ((fs.mkdirParents cwd true l.reverse).1 = .ok () →
        (fs.mkdirParents cwd true l.reverse).2.node l = some .directory
          ∧ (fs.mkdirParents cwd true l.reverse).2.Above l) := by
  have hnames := @mkdirParents_names_grown γ l.reverse fs (l.reverse_reverse.symm ▸ h) cwd
  rwa [List.reverse_reverse] at hnames

/-! ### What the calls depend on -/

/-- Two file systems with the same links that are the same on some locations. -/
structure AgreeOn (S : Set Location) (fs fs' : FileSystem γ) : Prop where
  link : fs.link? = fs'.link?
  node : ∀ l ∈ S, fs.node l = fs'.node l

theorem walkNames_congr {fs fs' : FileSystem γ}
    {follow follow' : Location → List String → Except Errno Location} {names : List String}
    {here : Location} (h : Canonical fs.link? (here ++ names))
    (hnode : ∀ l, l <+: here ++ names → fs.node l = fs'.node l) :
    walkNames fs follow here names = walkNames fs' follow' here names := by
  induction names generalizing here with
  | nil => rfl
  | cons name rest ih =>
      have hsplit : here ++ name :: rest = (here ++ [name]) ++ rest := List.append_cons here name rest
      have hthere : here ++ [name] <+: here ++ name :: rest :=
        hsplit ▸ List.prefix_append (here ++ [name]) rest
      have hname : name ≠ ".." := fun heq =>
        h.name (List.mem_append_right here (heq ▸ List.mem_cons_self))
      have hnext := @ih (here ++ [name]) (hsplit ▸ h) (hsplit ▸ hnode)
      rw [walkNames, walkNames, ← hnode here (List.prefix_append here (name :: rest)),
        ← hnode (here ++ [name]) hthere, if_neg hname, if_neg hname]
      rcases fs.node here with _ | ⟨_ | _ | _⟩
      · rfl
      · rfl
      · rcases hfound : fs.node (here ++ [name]) with _ | ⟨_ | _ | target⟩
        · rfl
        · exact hnext
        · exact hnext
        · exact absurd hfound (node_ne_link (h.link _ hthere) target)
      · rfl

section

variable {S : Set Location} {fs fs' : FileSystem γ} {l : Location}

theorem AgreeOn.put (h : AgreeOn S fs fs') (hl : l ≠ []) (node : Node γ) :
    AgreeOn S (fs.put l node) (fs'.put l node) where
  link := by
    funext l'
    have hlink := congrFun h.link l'
    rw [link?, link?] at hlink ⊢
    rw [node_put fs hl, node_put fs' hl]
    by_cases heq : l' = l
    · rw [if_pos heq, if_pos heq]
    · rw [if_neg heq, if_neg heq]
      exact hlink
  node l' hl' := by
    rw [node_put fs hl, node_put fs' hl, h.node l' hl']

variable (hS : ∀ l ∈ S, ∀ l', l' <+: l → l' ∈ S)

include hS

theorem AgreeOn.walk (h : AgreeOn S fs fs') (hl : l ∈ S) (hcanonical : Canonical fs.link? l)
    (cwd : Location) : fs.walk cwd (pathTo l) = fs'.walk cwd (pathTo l) :=
  @walkNames_congr γ fs fs' _ _ l [] hcanonical fun l' hle => h.node l' (hS l hl l' hle)

theorem AgreeOn.stat (h : AgreeOn S fs fs') (hl : l ∈ S) (hcanonical : Canonical fs.link? l)
    (cwd : Location) : fs.stat cwd (pathTo l) = fs'.stat cwd (pathTo l) := by
  rw [FileSystem.stat, FileSystem.stat, ← h.walk hS hl hcanonical]
  rcases hwalk : fs.walk cwd (pathTo l) with errno | l'
  · rfl
  · obtain ⟨rfl, -⟩ := (walk_pathTo_iff hcanonical).1 hwalk
    exact h.node l' hl

theorem AgreeOn.isDir (h : AgreeOn S fs fs') (hl : l ∈ S) (hcanonical : Canonical fs.link? l)
    (cwd : Location) : fs.isDir cwd (pathTo l) = fs'.isDir cwd (pathTo l) := by
  rw [FileSystem.isDir, FileSystem.isDir, h.stat hS hl hcanonical]

theorem AgreeOn.isFile (h : AgreeOn S fs fs') (hl : l ∈ S) (hcanonical : Canonical fs.link? l)
    (cwd : Location) : fs.isFile cwd (pathTo l) = fs'.isFile cwd (pathTo l) := by
  rw [FileSystem.isFile, FileSystem.isFile, h.stat hS hl hcanonical]

theorem AgreeOn.readFile (h : AgreeOn S fs fs') (hl : l ∈ S) (hcanonical : Canonical fs.link? l)
    (cwd : Location) : fs.readFile cwd (pathTo l) = fs'.readFile cwd (pathTo l) := by
  rw [FileSystem.readFile, FileSystem.readFile, ← h.walk hS hl hcanonical]
  rcases hwalk : fs.walk cwd (pathTo l) with errno | l'
  · rfl
  · obtain ⟨rfl, -⟩ := (walk_pathTo_iff hcanonical).1 hwalk
    dsimp only
    rw [h.node l' hl]

/-- The two results of a call: the same error, or file systems that agree again. -/
def AgreeOn.Results (S : Set Location) :
    Except Errno (FileSystem γ) → Except Errno (FileSystem γ) → Prop
  | .error errno, .error errno' => errno = errno'
  | .ok fs, .ok fs' => AgreeOn S fs fs'
  | _, _ => False

theorem AgreeOn.writeFile (h : AgreeOn S fs fs') (hl : l ∈ S) (hcanonical : Canonical fs.link? l)
    (cwd : Location) (content : γ) :
    AgreeOn.Results S (fs.writeFile cwd (pathTo l) content)
      (fs'.writeFile cwd (pathTo l) content) := by
  rw [FileSystem.writeFile, FileSystem.writeFile, ← h.walk hS hl hcanonical]
  rcases hwalk : fs.walk cwd (pathTo l) with errno | l'
  · exact rfl
  · obtain ⟨rfl, -⟩ := (walk_pathTo_iff hcanonical).1 hwalk
    dsimp only
    rw [← h.node l' hl]
    by_cases hroot : l' = []
    · subst hroot
      exact rfl
    · rcases fs.node l' with _ | ⟨_ | _ | _⟩
      · exact h.put hroot _
      · exact h.put hroot _
      · exact rfl
      · exact h.put hroot _

theorem AgreeOn.mkdir (h : AgreeOn S fs fs') (hl : l ∈ S) (hcanonical : Canonical fs.link? l)
    (cwd : Location) :
    AgreeOn.Results S (fs.mkdir cwd (pathTo l)) (fs'.mkdir cwd (pathTo l)) := by
  rw [FileSystem.mkdir, FileSystem.mkdir]
  rcases List.eq_nil_or_concat l with rfl | ⟨parent, name, rfl⟩
  · exact rfl
  · rw [List.concat_eq_append] at hl hcanonical ⊢
    have hnames : (pathTo (parent ++ [name])).names.getLast? = some name := List.getLast?_concat
    have hdrop : (pathTo (parent ++ [name])).names.dropLast = parent := List.dropLast_concat
    have hle : parent <+: parent ++ [name] := List.prefix_append parent [name]
    have hparent : parent ∈ S := hS _ hl parent hle
    rw [hnames, hdrop, show ({ pathTo (parent ++ [name]) with names := parent } : PathName)
      = pathTo parent from rfl]
    dsimp only
    rw [← h.walk hS hparent (hcanonical.of_le hle)]
    rcases hwalk : fs.walk cwd (pathTo parent) with errno | l'
    · exact rfl
    · obtain ⟨rfl, -⟩ := (walk_pathTo_iff (hcanonical.of_le hle)).1 hwalk
      dsimp only
      rw [← h.node l' hparent, ← h.node (l' ++ [name]) hl]
      rcases fs.node l' with _ | ⟨_ | _ | _⟩
      · exact rfl
      · exact rfl
      · dsimp only
        split
        · exact rfl
        · exact h.put (by simp) .directory
      · exact rfl

theorem AgreeOn.existOk (h : AgreeOn S fs fs') (hl : l ∈ S) (hcanonical : Canonical fs.link? l)
    (cwd : Location) (errno : Errno) :
    (fs.existOk cwd (pathTo l) errno).1 = (fs'.existOk cwd (pathTo l) errno).1
      ∧ AgreeOn S (fs.existOk cwd (pathTo l) errno).2 (fs'.existOk cwd (pathTo l) errno).2 := by
  rw [FileSystem.existOk, FileSystem.existOk, ← h.isDir hS hl hcanonical cwd]
  split
  · exact ⟨rfl, h⟩
  · exact ⟨rfl, h⟩

theorem AgreeOn.mkdirParents_names {names : List String} {fs fs' : FileSystem γ} (h : AgreeOn S fs fs')
    (hl : names.reverse ∈ S) (hcanonical : Canonical fs.link? names.reverse) (cwd : Location) :
    (fs.mkdirParents cwd true names).1 = (fs'.mkdirParents cwd true names).1
      ∧ AgreeOn S (fs.mkdirParents cwd true names).2 (fs'.mkdirParents cwd true names).2 := by
  induction names generalizing fs fs' with
  | nil => exact h.existOk hS hl hcanonical cwd .eexist
  | cons name parents ih =>
      have hle : parents.reverse <+: (name :: parents).reverse := by
        rw [List.reverse_cons]
        exact List.prefix_append _ _
      have hparents := ih h (hS _ hl _ hle) (hcanonical.of_le hle)
      have hgrown := (mkdirParents_names_grown (hcanonical.of_le hle) cwd).1
      rw [FileSystem.mkdirParents, FileSystem.mkdirParents,
        show (⟨true, (name :: parents).reverse⟩ : PathName) = pathTo (name :: parents).reverse
        from rfl]
      generalize (name :: parents).reverse = l at *
      have hmkdir := h.mkdir hS hl hcanonical cwd
      generalize fs.mkdir cwd (pathTo l) = made, fs'.mkdir cwd (pathTo l) = made' at hmkdir
      match made, made', hmkdir with
      | .ok _, .ok _, hmkdir => exact ⟨rfl, hmkdir⟩
      | .error errno, .error _, rfl =>
          dsimp only
          split
          · generalize fs.mkdirParents cwd true parents = above,
              fs'.mkdirParents cwd true parents = above' at hparents hgrown
            obtain ⟨result, fs₁⟩ := above
            obtain ⟨result', fs₁'⟩ := above'
            obtain ⟨rfl, hagree⟩ := hparents
            rcases result with errno | ⟨⟩
            · exact ⟨rfl, hagree⟩
            · have hcanonical₁ : Canonical fs₁.link? l := hgrown.link?_eq ▸ hcanonical
              have hmkdir₁ := hagree.mkdir hS hl hcanonical₁ cwd
              dsimp only
              generalize fs₁.mkdir cwd (pathTo l) = made,
                fs₁'.mkdir cwd (pathTo l) = made' at hmkdir₁
              match made, made', hmkdir₁ with
              | .ok _, .ok _, hmkdir₁ => exact ⟨rfl, hmkdir₁⟩
              | .error errno, .error _, rfl => exact hagree.existOk hS hl hcanonical₁ cwd errno
          · exact h.existOk hS hl hcanonical cwd errno

theorem AgreeOn.mkdirParents (h : AgreeOn S fs fs') (hl : l ∈ S)
    (hcanonical : Canonical fs.link? l) (cwd : Location) :
    (fs.mkdirParents cwd true l.reverse).1 = (fs'.mkdirParents cwd true l.reverse).1
      ∧ AgreeOn S (fs.mkdirParents cwd true l.reverse).2 (fs'.mkdirParents cwd true l.reverse).2 :=
  h.mkdirParents_names hS (l.reverse_reverse.symm ▸ hl) (l.reverse_reverse.symm ▸ hcanonical) cwd

omit hS in
theorem mem_children_iff {fs : FileSystem γ} {l : Location} {name : String} :
    name ∈ fs.children l ↔ (fs.node (l ++ [name])).isSome := by
  have hne : l ++ [name] ≠ [] := by simp
  rw [FileSystem.node, if_neg hne, Dict.get?_isSome_iff, children, List.mem_filterMap]
  constructor
  · rintro ⟨l', hl', hname⟩
    split at hname
    · rename_i hdrop
      obtain ⟨init, rfl⟩ := List.getLast?_eq_some_iff.1 hname
      rw [List.dropLast_concat] at hdrop
      rwa [hdrop] at hl'
    · cases hname
  · intro hmem
    exact ⟨l ++ [name], hmem, by rw [List.dropLast_concat, if_pos rfl, List.getLast?_concat]⟩

omit hS in
theorem nodup_children (fs : FileSystem γ) (l : Location) : (fs.children l).Nodup := by
  refine List.Nodup.filterMap ?_ fs.nodup
  intro l' l'' name hname hname'
  simp only [Option.mem_def] at hname hname'
  split at hname
  · rename_i hdrop
    split at hname'
    · rename_i hdrop'
      obtain ⟨init, rfl⟩ := List.getLast?_eq_some_iff.1 hname
      obtain ⟨init', rfl⟩ := List.getLast?_eq_some_iff.1 hname'
      rw [List.dropLast_concat] at hdrop hdrop'
      rw [hdrop, hdrop']
    · cases hname'
  · cases hname

omit hS in
/-- The same names, in whichever order the system lists them. -/
theorem AgreeOn.children (h : AgreeOn S fs fs') (hl : ∀ name, l ++ [name] ∈ S) :
    (fs.children l).Perm (fs'.children l) := by
  refine (List.perm_ext_iff_of_nodup (nodup_children fs l) (nodup_children fs' l)).2 fun name => ?_
  rw [mem_children_iff, mem_children_iff, h.node _ (hl name)]

end

end FileSystem

end Lib
