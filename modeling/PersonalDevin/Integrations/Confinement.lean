import PersonalDevin.Integrations.Filesystem

/-!
# What a provider with a root can reach

The state is the file system as a whole. Where no link leads back to itself, a request changes nothing
outside the root, except that the directories above a root that is missing are made; it answers from
what is under the root; and what it writes is what is read back, however the paths of the two requests
are written, since no request changes a link. A link that does lead back to itself opens the root: the
names behind it are not followed before the check, and the system follows them afterwards.
-/

namespace PersonalDevin.Integrations

open Lib

namespace FilesystemIntegration

/-! ### What a request is about -/

/-- The action of a request and the location under the root that it is about. -/
def locate (self : FilesystemIntegration) (root : Location) (request : IntegrationRequest)
    (disk : Disk) : Except IntegrationFailure (String × Location) :=
  match isAllowed allowedActions request.action with
  | .error failure => .error failure
  | .ok false =>
      .error (.execution ("payload.action must be one of " ++ allowedText allowedActions
        ++ ", got: " ++ request.action.pyRepr))
  | .ok true =>
      match pathOf request with
      | none => .error (.execution "payload.path must be a non-empty string")
      | some path =>
          match disk.resolve self.cwd (anchored root path) with
          | none => .error (.other (self.platform.loopError (anchored root path)))
          | some l =>
              if root.isPrefixOf l then .ok (request.action.pyStr, l)
              else
                .error (.execution ("path traversal blocked: " ++ pathRepr path
                  ++ " resolves outside root " ++ pathText (FileSystem.pathTo root)))

variable {self : FilesystemIntegration} {root : Location} {request : IntegrationRequest}

/-- The rest of a request, at its location. -/
def perform (self : FilesystemIntegration) (request : IntegrationRequest) (action : String)
    (l : Location) (disk : Disk) : Except IntegrationFailure IntegrationResponse × Disk :=
  match self.act request action (FileSystem.pathTo l) disk with
  | (.error failure, disk) => (.error failure, disk)
  | (.ok payload, disk) => (.ok (self.respond request action (FileSystem.pathTo l) payload), disk)

theorem execute_eq (hroot : self.root = some root) (request : IntegrationRequest) (disk : Disk) :
    self.execute request disk =
      match self.locate root request disk with
      | .error failure => (.error failure, disk)
      | .ok (action, l) => self.perform request action l disk := by
  simp only [execute, locate, enforceRoot, hroot]
  rcases isAllowed allowedActions request.action with failure | ⟨_ | _⟩
  · rfl
  · rfl
  · rcases pathOf request with _ | path
    · rfl
    · dsimp only
      rcases disk.resolve self.cwd (anchored root path) with _ | l
      · rfl
      · dsimp only
        by_cases hle : root.isPrefixOf l = true
        · rw [if_pos hle, if_pos hle]
          rfl
        · rw [if_neg hle, if_neg hle]

theorem anchored_start (root cwd : Location) (path : PathName) :
    (anchored root path).start cwd = [] := by
  rw [anchored]
  split
  · rename_i habsolute
    rw [PathName.start, if_pos habsolute]
  · rfl

/-- Where no link leads back to itself, an anchored path resolves to a location without links. -/
theorem resolve_anchored (self : FilesystemIntegration) {disk : Disk} (hlinks : disk.Unlooped)
    (root : Location) (path : PathName) :
    ∃ l, disk.reach [] (anchored root path).names = .resolved l
      ∧ disk.resolve self.cwd (anchored root path) = some l ∧ FileSystem.Canonical disk.link? l := by
  have hstart : FileSystem.Canonical disk.link? ((anchored root path).start self.cwd) := by
    rw [anchored_start]
    exact .nil disk.link?_nil
  have hresolve := hlinks.resolve hstart
  rwa [anchored_start] at hresolve

/-- A request that is let through names one of the three actions, and its location lies under the root
and has no link above it. -/
theorem locate_ok {disk : Disk} (hlinks : disk.Unlooped) {action : String} {l : Location}
    (h : self.locate root request disk = .ok (action, l)) :
    request.action = .str action ∧ action ∈ allowedActions ∧ root <+: l
      ∧ FileSystem.Canonical disk.link? l := by
  unfold locate at h
  split at h
  · cases h
  · cases h
  · rename_i hallowed
    obtain ⟨s, hs, haction⟩ := isAllowed_ok_true hallowed
    split at h
    · cases h
    · rename_i path _
      obtain ⟨reached, -, hreached, hcanonical⟩ := resolve_anchored self hlinks root path
      rw [hreached] at h
      dsimp only at h
      split at h
      · rename_i hle
        have hpair := Prod.mk.inj (Except.ok.inj h)
        obtain rfl := hpair.2
        rw [haction] at hpair
        obtain rfl : s = action := hpair.1
        exact ⟨haction, hs, List.isPrefixOf_iff_prefix.1 hle, hcanonical⟩
      · cases h

/-- Which request is let through, and where to, is the same on every disk with the same links. -/
theorem locate_congr {disk disk' : Disk} (hlinks : disk.Unlooped) (h : disk.link? = disk'.link?)
    (request : IntegrationRequest) :
    self.locate root request disk = self.locate root request disk' := by
  have hresolve : ∀ path, disk.resolve self.cwd (anchored root path)
      = disk'.resolve self.cwd (anchored root path) := fun path => by
    obtain ⟨l, hreach, hl, -⟩ := resolve_anchored self hlinks root path
    obtain ⟨l', hreach', hl', -⟩ := resolve_anchored self (hlinks.congr h) root path
    rw [← FileSystem.reach_congr h, hreach] at hreach'
    rw [hl, hl', FileSystem.Reached.resolved.inj hreach']
  simp only [locate, hresolve]

/-! ### What a request leaves -/

/-- Nothing is changed outside the root, except that a missing directory above it is made. -/
def Confined (root : Location) (disk disk' : Disk) : Prop :=
  ∀ l, ¬ root <+: l → disk'.node l = disk.node l ∨
    l <+: root ∧ disk.node l = none ∧ disk'.node l = some .directory

/-- How a request leaves the disk: directories are made above its location, and then perhaps a file is
put there. -/
def Written (l : Location) (disk disk' : Disk) : Prop :=
  ∃ made, FileSystem.Grown l.dropLast disk made ∧
    (disk' = made ∨ l ≠ [] ∧ FileSystem.link? made l = none ∧ made.node l ≠ some .directory ∧
      ∃ bytes, disk' = made.put l (.file bytes))

theorem link?_put {disk : Disk} {l : Location} (hl : l ≠ []) (hlink : FileSystem.link? disk l = none)
    (bytes : ByteArray) : FileSystem.link? (disk.put l (.file bytes)) = FileSystem.link? disk := by
  funext l'
  rw [FileSystem.link?, FileSystem.node_put disk hl]
  split
  · rename_i hlinked
    split at hlinked
    · cases hlinked
    · rw [FileSystem.link?, hlinked]
  · rename_i hnot
    split at hnot
    · rename_i heq
      rw [heq, hlink]
    · rw [FileSystem.link?]
      split
      · rename_i target htarget
        exact absurd htarget (hnot target)
      · rfl

theorem Written.link?_eq {l : Location} {disk disk' : Disk} (h : Written l disk disk') :
    disk'.link? = disk.link? := by
  obtain ⟨made, hgrown, rfl | ⟨hl, hlink, -, bytes, rfl⟩⟩ := h
  · exact hgrown.link?_eq
  · rw [link?_put hl hlink bytes, hgrown.link?_eq]

theorem Written.confined {l : Location} {disk disk' : Disk} (hle : root <+: l)
    (h : Written l disk disk') : Confined root disk disk' := by
  have hgrown : ∀ {made : Disk}, FileSystem.Grown l.dropLast disk made → Confined root disk made := by
    intro made hgrown l' hnot
    rcases hgrown l' with hsame | ⟨hbelow, hnone, hdir⟩
    · exact .inl hsame
    · have habove := List.prefix_or_prefix_of_prefix hle
        (hbelow.trans (List.dropLast_prefix l))
      exact .inr ⟨habove.resolve_left hnot, hnone, hdir⟩
  obtain ⟨made, hmade, rfl | ⟨hl, -, -, bytes, rfl⟩⟩ := h
  · exact hgrown hmade
  · intro l' hnot
    have hne : l' ≠ l := fun heq => hnot (heq ▸ hle)
    rw [FileSystem.node_put made hl, if_neg hne]
    exact hgrown hmade l' hnot

/-- The writing of a file: either it fails, with directories made, or the file has the bytes of the
text and can be read. -/
theorem write_cases (self : FilesystemIntegration) {l : Location} {disk : Disk}
    (h : FileSystem.Canonical disk.link? l) (payload : Fields) :
    (∃ failure made, FileSystem.Grown l.dropLast disk made ∧
      self.write (FileSystem.pathTo l) payload disk = (.error failure, made)) ∨
    ∃ content fields made, FileSystem.Grown l.dropLast disk made ∧ l ≠ [] ∧ made.Above l
      ∧ made.node l ≠ some .directory ∧ payload.get? "content" = some (.str content)
      ∧ self.write (FileSystem.pathTo l) payload disk
        = (.ok fields, made.put l (.file content.toUTF8)) := by
  have hparents : (FileSystem.pathTo l).names.reverse.tail = l.dropLast.reverse := by
    rw [FileSystem.pathTo, List.tail_reverse]
  have hgrown := (FileSystem.mkdirParents_grown (h.of_le (List.dropLast_prefix l)) self.cwd).1
  rw [write]
  split
  · rename_i content hcontent
    rw [hparents, show (FileSystem.pathTo l).absolute = true from rfl]
    generalize disk.mkdirParents self.cwd true l.dropLast.reverse = making at hgrown
    obtain ⟨errno | ⟨⟩, made⟩ := making
    · exact .inl ⟨_, made, hgrown, rfl⟩
    · dsimp only
      split
      · exact .inl ⟨_, made, hgrown, rfl⟩
      · rename_i disk' hwrite
        obtain ⟨habove, hnode, rfl⟩ :=
          FileSystem.writeFile_pathTo (hgrown.link?_eq ▸ h) hwrite
        have hl : l ≠ [] := fun hnil => hnode (by rw [hnil]; rfl)
        exact .inr ⟨content, _, made, hgrown, hl, habove, hnode, hcontent, rfl⟩
  · exact .inl ⟨_, disk, .refl _ disk, rfl⟩

theorem perform_written {action : String} {l : Location} {disk : Disk}
    (h : FileSystem.Canonical disk.link? l) :
    Written l disk (self.perform request action l disk).2 := by
  have hsame : Written l disk disk := ⟨disk, .refl _ disk, .inl rfl⟩
  have hact : Written l disk (self.act request action (FileSystem.pathTo l) disk).2 := by
    rw [act]
    split
    · exact hsame
    · split
      · rcases self.write_cases h request.payload with
          ⟨failure, made, hgrown, hwrite⟩ | ⟨content, fields, made, hgrown, hl, -, hnode, -, hwrite⟩
        · rw [hwrite]
          exact ⟨made, hgrown, .inl rfl⟩
        · rw [hwrite]
          have hlink : FileSystem.link? made l = none :=
            hgrown.link?_eq ▸ h.link l List.prefix_rfl
          exact ⟨made, hgrown, .inr ⟨hl, hlink, hnode, content.toUTF8, rfl⟩⟩
      · exact hsame
  rw [perform]
  split <;> rename_i hperformed <;> rw [hperformed] at hact <;> exact hact

/-- A request leaves the disk as it is or writes at its location. -/
theorem execute_written (hroot : self.root = some root) (request : IntegrationRequest) {disk : Disk}
    (hlinks : disk.Unlooped) :
    (self.execute request disk).2 = disk ∨
      ∃ action l, self.locate root request disk = .ok (action, l)
        ∧ Written l disk (self.execute request disk).2 := by
  rw [execute_eq hroot]
  rcases hlocated : self.locate root request disk with failure | ⟨action, l⟩
  · exact .inl rfl
  · exact .inr ⟨action, l, rfl, perform_written (locate_ok hlinks hlocated).2.2.2⟩

theorem Confined.refl (root : Location) (disk : Disk) : Confined root disk disk :=
  fun _ _ => .inl rfl

theorem Confined.trans {disk disk' disk'' : Disk} (h : Confined root disk disk')
    (h' : Confined root disk' disk'') : Confined root disk disk'' := by
  intro l hnot
  rcases h' l hnot with hsame | ⟨hle, hnone, hdir⟩
  · exact hsame ▸ h l hnot
  · rcases h l hnot with hsame | ⟨-, -, hdir'⟩
    · exact .inr ⟨hle, hsame ▸ hnone, hdir⟩
    · rw [hnone] at hdir'
      cases hdir'

/-! ### What a request depends on -/

/-- The locations under the root and those above it. -/
def near (root : Location) : Set Location := { l | root <+: l ∨ l <+: root }

theorem near_of_le (l : Location) (hl : l ∈ near root) (l' : Location) (hle : l' <+: l) :
    l' ∈ near root := by
  rcases hl with hunder | habove
  · exact List.prefix_or_prefix_of_prefix hunder hle
  · exact .inr (hle.trans habove)

theorem sorted_eq_of_perm {names names' : List String} (h : names.Perm names') :
    Planning.DependencyGraph.sorted names = Planning.DependencyGraph.sorted names' :=
  (((List.perm_insertionSort (· ≤ ·) names).trans h).trans
    (List.perm_insertionSort (· ≤ ·) names').symm).eq_of_pairwise'
    (List.pairwise_insertionSort (· ≤ ·) names) (List.pairwise_insertionSort (· ≤ ·) names')

section

variable {disk disk' : Disk} {l : Location} (h : FileSystem.AgreeOn (near root) disk disk')
  (hl : root <+: l) (hcanonical : FileSystem.Canonical disk.link? l)

include h hl hcanonical

theorem read_agree :
    self.read (FileSystem.pathTo l) disk = self.read (FileSystem.pathTo l) disk' := by
  rw [read, read, h.stat near_of_le (.inl hl) hcanonical,
    h.isFile near_of_le (.inl hl) hcanonical, h.readFile near_of_le (.inl hl) hcanonical]

theorem list_agree :
    self.list (FileSystem.pathTo l) disk = self.list (FileSystem.pathTo l) disk' := by
  rw [list, list, h.stat near_of_le (.inl hl) hcanonical,
    h.isDir near_of_le (.inl hl) hcanonical, FileSystem.listDir, FileSystem.listDir,
    h.walk near_of_le (.inl hl) hcanonical]
  have hchildren := h.children (l := l) fun name => .inl (hl.trans (List.prefix_append l [name]))
  rcases hwalk : FileSystem.walk disk' self.cwd (FileSystem.pathTo l) with errno | l'
  · rfl
  · obtain ⟨rfl, -⟩ := (FileSystem.walk_pathTo_iff (h.link ▸ hcanonical)).1 hwalk
    dsimp only
    rw [← h.node l' (.inl hl)]
    rcases FileSystem.node disk l' with _ | ⟨_ | _ | _⟩
    · rfl
    · rfl
    · dsimp only
      rw [sorted_eq_of_perm hchildren, hchildren.length_eq]
    · rfl

theorem write_agree (payload : Fields) :
    (self.write (FileSystem.pathTo l) payload disk).1
        = (self.write (FileSystem.pathTo l) payload disk').1
      ∧ FileSystem.AgreeOn (near root) (self.write (FileSystem.pathTo l) payload disk).2
        (self.write (FileSystem.pathTo l) payload disk').2 := by
  have hparents : (FileSystem.pathTo l).names.reverse.tail = l.dropLast.reverse := by
    rw [FileSystem.pathTo, List.tail_reverse]
  have habove := hcanonical.of_le (List.dropLast_prefix l)
  have hmade := h.mkdirParents near_of_le
    (near_of_le l (.inl hl) _ (List.dropLast_prefix l)) habove self.cwd
  have hgrown := (FileSystem.mkdirParents_grown habove self.cwd).1
  rw [write, write]
  split
  · rename_i content _
    rw [hparents, show (FileSystem.pathTo l).absolute = true from rfl]
    generalize disk.mkdirParents self.cwd true l.dropLast.reverse = making,
      disk'.mkdirParents self.cwd true l.dropLast.reverse = making' at hmade hgrown
    obtain ⟨result, made⟩ := making
    obtain ⟨result', made'⟩ := making'
    obtain ⟨rfl, hagree⟩ := hmade
    rcases result with errno | ⟨⟩
    · exact ⟨rfl, hagree⟩
    · have hfile := hagree.writeFile near_of_le (.inl hl) (hgrown.link?_eq ▸ hcanonical) self.cwd
        content.toUTF8
      dsimp only
      generalize made.writeFile self.cwd (FileSystem.pathTo l) content.toUTF8 = written,
        made'.writeFile self.cwd (FileSystem.pathTo l) content.toUTF8 = written' at hfile
      match written, written', hfile with
      | .ok _, .ok _, hfile => exact ⟨rfl, hfile⟩
      | .error errno, .error _, rfl => exact ⟨rfl, hagree⟩
  · exact ⟨rfl, h⟩

theorem perform_agree (request : IntegrationRequest) (action : String) :
    (self.perform request action l disk).1 = (self.perform request action l disk').1
      ∧ FileSystem.AgreeOn (near root) (self.perform request action l disk).2
        (self.perform request action l disk').2 := by
  have hact : (self.act request action (FileSystem.pathTo l) disk).1
        = (self.act request action (FileSystem.pathTo l) disk').1
      ∧ FileSystem.AgreeOn (near root) (self.act request action (FileSystem.pathTo l) disk).2
        (self.act request action (FileSystem.pathTo l) disk').2 := by
    rw [act, act]
    split
    · exact ⟨read_agree h hl hcanonical, h⟩
    · split
      · exact write_agree h hl hcanonical request.payload
      · exact ⟨list_agree h hl hcanonical, h⟩
  rw [perform, perform]
  generalize self.act request action (FileSystem.pathTo l) disk = acted,
    self.act request action (FileSystem.pathTo l) disk' = acted' at hact
  obtain ⟨result, after⟩ := acted
  obtain ⟨result', after'⟩ := acted'
  obtain ⟨rfl, hagree⟩ := hact
  rcases result with failure | payload
  · exact ⟨rfl, hagree⟩
  · exact ⟨rfl, hagree⟩

end

theorem execute_agree (hroot : self.root = some root) (request : IntegrationRequest)
    {disk disk' : Disk} (hlinks : disk.Unlooped) (h : FileSystem.AgreeOn (near root) disk disk') :
    (self.execute request disk).1 = (self.execute request disk').1
      ∧ FileSystem.AgreeOn (near root) (self.execute request disk).2
        (self.execute request disk').2 := by
  rw [execute_eq hroot, execute_eq hroot, ← locate_congr hlinks h.link]
  rcases hlocated : self.locate root request disk with failure | ⟨action, l⟩
  · exact ⟨rfl, h⟩
  · obtain ⟨-, -, hle, hcanonical⟩ := locate_ok hlinks hlocated
    exact perform_agree h hle hcanonical request action

/-! ### A provider at work -/

def boxProvider : FilesystemIntegration where
  platform := ⟨fun _ _ => "error", fun _ => "loop", fun _ => "undecodable", "now"⟩
  cwd := []
  root := some ["srv", "box"]

def boxRegistry : IntegrationRegistry Disk :=
  Dict.set .empty "filesystem" boxProvider.integration

example : IntegrationRegistry.register .empty boxProvider.integration = .ok boxRegistry := rfl

theorem boxRegistry_only (name : String) (integration : Integration Disk)
    (h : boxRegistry.get? name = some integration) : integration = boxProvider.integration := by
  rw [boxRegistry, Dict.get?_set] at h
  split at h
  · exact (Option.some.inj h).symm
  · cases h

/-- The root with a directory and two links, one of them out of the root. -/
def boxDisk : Disk :=
  Dict.setAll Prod.fst Prod.snd .empty
    [(["srv"], .directory), (["srv", "box"], .directory), (["srv", "box", "data"], .directory),
     (["srv", "box", "link"], .link ⟨false, ["data"]⟩), (["srv", "box", "out"], .link ⟨true, ["etc"]⟩),
     (["etc"], .directory), (["etc", "passwd"], .file ByteArray.empty)]

example : make boxProvider.platform [] (some "/srv/box") boxDisk = .ok boxProvider := rfl

theorem boxDisk_unlooped : boxDisk.Unlooped := by
  refine FileSystem.unlooped_of_plain fun l target htarget follow active => ?_
  have hmem : l ∈ [["srv"], ["srv", "box"], ["srv", "box", "data"], ["srv", "box", "link"],
      ["srv", "box", "out"], ["etc"], ["etc", "passwd"]] := FileSystem.mem_keys_of_link? htarget
  have hnone : ∀ l, boxDisk.link? l = none → boxDisk.link? l ≠ some target := fun l h h' => by
    rw [h] at h'
    cases h'
  simp only [List.mem_cons, List.not_mem_nil, or_false] at hmem
  rcases hmem with rfl | rfl | rfl | rfl | rfl | rfl | rfl
  case inr.inr.inr.inl =>
    have hlinked : boxDisk.link? ["srv", "box", "link"] = some ⟨false, ["data"]⟩ := rfl
    obtain rfl := Option.some.inj (hlinked.symm.trans htarget)
    exact ⟨["srv", "box", "data"], rfl⟩
  case inr.inr.inr.inr.inl =>
    have hlinked : boxDisk.link? ["srv", "box", "out"] = some ⟨true, ["etc"]⟩ := rfl
    obtain rfl := Option.some.inj (hlinked.symm.trans htarget)
    exact ⟨["etc"], rfl⟩
  all_goals exact absurd htarget (hnone _ rfl)

/-- The same with a link to itself under the root. -/
def loopDisk : Disk := boxDisk.put ["srv", "box", "loop"] (.link ⟨false, ["loop"]⟩)

def boxRequest (action path : String) (content : List (String × Value)) : IntegrationRequest where
  id := "req-1"
  integration := "filesystem"
  payload := [("action", .str action), ("path", .str path)] ++ content
  metadata := []
  timestamp := "now"

def boxWriting : IntegrationRequest := boxRequest "write" "link/a.txt" [("content", .str "x")]

def boxReading : IntegrationRequest := boxRequest "read" "data/../data/a.txt" []

theorem boxProvider_locate {action path : String} (content : List (String × Value)) {name : PathName}
    {l : Location} (haction : action ∈ allowedActions)
    (hpath : pathOf (boxRequest action path content) = some name)
    (hresolve : boxDisk.resolve [] (anchored ["srv", "box"] name) = some l)
    (hle : ["srv", "box"].isPrefixOf l = true) :
    boxProvider.locate ["srv", "box"] (boxRequest action path content) boxDisk = .ok (action, l) := by
  have hnamed : (boxRequest action path content).action = .str action := rfl
  have hallowed : isAllowed allowedActions (.str action) = .ok true :=
    congrArg Except.ok (decide_eq_true haction)
  have hcwd : boxProvider.cwd = [] := rfl
  simp only [locate, hnamed, hallowed, hpath, hcwd, hresolve, hle, if_true]
  rfl

theorem boxWriting_locate :
    boxProvider.locate ["srv", "box"] boxWriting boxDisk
      = .ok ("write", ["srv", "box", "data", "a.txt"]) :=
  boxProvider_locate [("content", .str "x")] (by decide)
    (by decide : _ = some (⟨false, ["link", "a.txt"]⟩ : PathName)) (by decide) (by decide)

theorem boxReading_locate :
    boxProvider.locate ["srv", "box"] boxReading boxDisk
      = .ok ("read", ["srv", "box", "data", "a.txt"]) :=
  boxProvider_locate [] (by decide)
    (by decide : _ = some (⟨false, ["data", "..", "data", "a.txt"]⟩ : PathName)) (by decide)
    (by decide)

/-! ### Runs of the manager -/

section

variable {registry : IntegrationRegistry Disk}

/-- What the manager does with a request, once the provider is known. -/
theorem dispatch_cases_of (hregistry : ∀ name integration,
    registry.get? name = some integration → integration = self.integration)
    (request : IntegrationRequest) :
    (∃ failure, ∀ disk, dispatch registry request disk = (.error failure, disk)) ∨
      ∀ disk, dispatch registry request disk = self.execute request disk := by
  rcases hget : registry.get? request.integration with _ | integration
  · exact .inl ⟨_, fun disk => by rw [dispatch, IntegrationRegistry.find, hget]⟩
  · obtain rfl := hregistry _ integration hget
    have hlisted : self.integration.allowedActions ≠ [] := List.cons_ne_nil _ _
    simp only [dispatch, IntegrationRegistry.find, hget, if_neg hlisted]
    rcases isAllowed self.integration.allowedActions request.action with failure | ⟨_ | _⟩
    · exact .inl ⟨failure, fun _ => rfl⟩
    · exact .inl ⟨_, fun _ => rfl⟩
    · exact .inr fun _ => rfl

variable (hroot : self.root = some root) (hregistry : ∀ name integration,
  registry.get? name = some integration → integration = self.integration)

include hroot hregistry

theorem execute_confined (request : IntegrationRequest) {disk : Disk} (hlinks : disk.Unlooped) :
    Confined root disk (Integrations.execute registry request disk).2
      ∧ (Integrations.execute registry request disk).2.link? = disk.link? := by
  rw [execute_state]
  rcases dispatch_cases_of hregistry request with ⟨failure, hfails⟩ | hruns
  · rw [hfails]
    exact ⟨.refl root disk, rfl⟩
  · rw [hruns]
    rcases execute_written hroot request hlinks with hsame | ⟨action, l, hlocated, hwritten⟩
    · rw [hsame]
      exact ⟨.refl root disk, rfl⟩
    · exact ⟨hwritten.confined (locate_ok hlinks hlocated).2.2.1, hwritten.link?_eq⟩

/-- Whatever requests the manager is given, on a disk where no link leads back to itself, it changes
nothing outside the root of its provider, except that it makes the directories above a root that is
missing, and no link anywhere. -/
theorem run_confined (requests : List IntegrationRequest) {disk : Disk} (hlinks : disk.Unlooped) :
    Confined root disk (run registry requests disk).2
      ∧ (run registry requests disk).2.link? = disk.link? := by
  induction requests generalizing disk with
  | nil => exact ⟨.refl root disk, rfl⟩
  | cons request rest ih =>
      obtain ⟨hconfined, hsame⟩ := execute_confined hroot hregistry request hlinks
      obtain ⟨hrest, hsame'⟩ := ih (hlinks.congr hsame.symm)
      exact ⟨hconfined.trans hrest, hsame'.trans hsame⟩

omit hroot hregistry in
theorem run_confined_box :
    Confined ["srv", "box"] boxDisk (run boxRegistry [boxWriting, boxReading] boxDisk).2
      ∧ (run boxRegistry [boxWriting, boxReading] boxDisk).2.link? = boxDisk.link? :=
  run_confined (rfl : boxProvider.root = some ["srv", "box"]) boxRegistry_only
    [boxWriting, boxReading] boxDisk_unlooped

omit hroot hregistry in
/-- Behind a link to itself, a link out of the root is followed after the check. -/
theorem loop_escapes :
    ¬ Confined ["srv", "box"] loopDisk
      (run boxRegistry [boxRequest "write" "loop/../out/new.txt" [("content", .str "x")]]
        loopDisk).2 := by
  intro hconfined
  have hnew : ((run boxRegistry [boxRequest "write" "loop/../out/new.txt" [("content", .str "x")]]
      loopDisk).2.node ["etc", "new.txt"]).isSome = true := by decide +kernel
  rcases hconfined ["etc", "new.txt"] (by decide) with hsame | ⟨habove, -⟩
  · rw [hsame] at hnew
    cases hnew
  · exact absurd habove (by decide)

theorem manager_agree (request : IntegrationRequest) {disk disk' : Disk} (hlinks : disk.Unlooped)
    (h : FileSystem.AgreeOn (near root) disk disk') :
    (Integrations.execute registry request disk).1 = (Integrations.execute registry request disk').1
      ∧ FileSystem.AgreeOn (near root) (Integrations.execute registry request disk).2
        (Integrations.execute registry request disk').2 := by
  have hdispatch : (dispatch registry request disk).1 = (dispatch registry request disk').1
      ∧ FileSystem.AgreeOn (near root) (dispatch registry request disk).2
        (dispatch registry request disk').2 := by
    rcases dispatch_cases_of hregistry request with ⟨failure, hfails⟩ | hruns
    · rw [hfails, hfails]
      exact ⟨rfl, h⟩
    · rw [hruns, hruns]
      exact execute_agree hroot request hlinks h
  rw [Integrations.execute, Integrations.execute]
  generalize dispatch registry request disk = answered,
    dispatch registry request disk' = answered' at hdispatch
  obtain ⟨answer, after⟩ := answered
  obtain ⟨answer', after'⟩ := answered'
  obtain ⟨rfl, hagree⟩ := hdispatch
  rcases answer with failure | response
  · exact ⟨rfl, hagree⟩
  · exact ⟨rfl, hagree⟩

/-- No answer depends on anything outside the root: two disks with the same links, none of which leads
back to itself, that are the same under the root and above it give the same answers to all requests, and
stay the same there. -/
theorem run_agree (requests : List IntegrationRequest) {disk disk' : Disk} (hlinks : disk.Unlooped)
    (h : FileSystem.AgreeOn (near root) disk disk') :
    (run registry requests disk).1 = (run registry requests disk').1
      ∧ FileSystem.AgreeOn (near root) (run registry requests disk).2
        (run registry requests disk').2 := by
  induction requests generalizing disk disk' with
  | nil => exact ⟨rfl, h⟩
  | cons request rest ih =>
      obtain ⟨hanswer, hafter⟩ := manager_agree hroot hregistry request hlinks h
      have hsame := (execute_confined hroot hregistry request hlinks).2
      obtain ⟨hanswers, hlast⟩ := ih (hlinks.congr hsame.symm) hafter
      exact ⟨by rw [run, run, hanswer, hanswers], hlast⟩

omit hroot hregistry in
/-- A file outside the root has no part in the answers. -/
theorem run_agree_box :
    (run boxRegistry [boxWriting, boxReading] boxDisk).1
      = (run boxRegistry [boxWriting, boxReading]
          (boxDisk.put ["etc", "passwd"] (.file (ByteArray.mk #[1])))).1 := by
  have hfile : boxDisk.link? ["etc", "passwd"] = none := rfl
  have hagree : FileSystem.AgreeOn (near ["srv", "box"]) boxDisk
      (boxDisk.put ["etc", "passwd"] (.file (ByteArray.mk #[1]))) := by
    refine ⟨(link?_put (by simp) hfile _).symm, fun l hl => ?_⟩
    have hne : l ≠ ["etc", "passwd"] := by
      rintro rfl
      rcases hl with hunder | habove
      · exact absurd (List.isPrefixOf_iff_prefix.2 hunder) (by decide)
      · exact absurd (List.isPrefixOf_iff_prefix.2 habove) (by decide)
    rw [FileSystem.node_put boxDisk (by simp), if_neg hne]
  exact (run_agree (rfl : boxProvider.root = some ["srv", "box"]) boxRegistry_only
    [boxWriting, boxReading] boxDisk_unlooped hagree).1

end

/-! ### What is read back -/

/-- The location has a file with these bytes, and the links are still those of the disk. -/
structure Holds (disk : Disk) (l : Location) (bytes : ByteArray) (later : Disk) : Prop where
  link : later.link? = disk.link?
  node : later.node l = some (.file bytes)
  above : later.Above l

/-- Writing elsewhere leaves a file and the directories above it. -/
theorem Holds.written {disk later after : Disk} {l l' : Location} {bytes : ByteArray}
    (h : Holds disk l bytes later) (hne : l' ≠ l) (hwritten : Written l' later after) :
    Holds disk l bytes after := by
  have hlink := hwritten.link?_eq
  obtain ⟨made, hgrown, rfl | ⟨hl', -, hnode, bytes', rfl⟩⟩ := hwritten
  · exact ⟨hlink.trans h.link, hgrown.node_of_some h.node,
      fun l'' hle hne => hgrown.node_of_some (h.above l'' hle hne)⟩
  · refine ⟨hlink.trans h.link, ?_, fun l'' hle hne' => ?_⟩
    · rw [FileSystem.node_put made hl', if_neg (Ne.symm hne)]
      exact hgrown.node_of_some h.node
    · have hdir := hgrown.node_of_some (h.above l'' hle hne')
      have hother : l'' ≠ l' := fun heq => hnode (heq ▸ hdir)
      rw [FileSystem.node_put made hl', if_neg hother]
      exact hdir

theorem perform_eq_of_not_write {action : String} (hwrite : action ≠ "write") (l : Location)
    (disk : Disk) :
    (self.perform request action l disk).2 = disk := by
  have hact : (self.act request action (FileSystem.pathTo l) disk).2 = disk := by
    rw [act, if_neg hwrite]
    split <;> rfl
  rw [perform]
  split <;> rename_i hperformed <;> rw [hperformed] at hact <;> exact hact

theorem decode_toUTF8 (content : String) : String.fromUTF8? content.toUTF8 = some content := by
  rw [String.toUTF8_eq_toByteArray, String.fromUTF8?, dif_pos content.isValidUTF8]
  rfl

/-- A request that is not a write to the location leaves it as it is. -/
theorem Holds.execute (hroot : self.root = some root) {disk later : Disk} {l : Location}
    {bytes : ByteArray} (hlinks : disk.Unlooped) (h : Holds disk l bytes later)
    (hother : self.locate root request disk ≠ .ok ("write", l)) :
    Holds disk l bytes (self.execute request later).2 := by
  rw [execute_eq hroot, ← locate_congr hlinks h.link.symm]
  rcases hlocated : self.locate root request disk with failure | ⟨action, l'⟩
  · exact h
  · by_cases hwrite : action = "write"
    · have hne : l' ≠ l := fun heq => hother (by rw [hlocated, hwrite, heq])
      exact h.written hne (perform_written (h.link ▸ (locate_ok hlinks hlocated).2.2.2))
    · dsimp only
      rw [perform_eq_of_not_write hwrite]
      exact h

/-- What the manager does with a request that its provider lets through. -/
theorem dispatch_eq {registry : IntegrationRegistry Disk}
    (hget : registry.get? request.integration = some self.integration)
    (hroot : self.root = some root) {disk : Disk} (hlinks : disk.Unlooped) {action : String}
    {l : Location} (hlocated : self.locate root request disk = .ok (action, l)) :
    dispatch registry request disk = self.perform request action l disk := by
  have hlisted : self.integration.allowedActions ≠ [] := List.cons_ne_nil _ _
  have hallowed : isAllowed self.integration.allowedActions request.action = .ok true := by
    obtain ⟨haction, hmem, -⟩ := locate_ok hlinks hlocated
    rw [haction]
    exact congrArg Except.ok (decide_eq_true hmem)
  have hexecute : self.execute request disk = self.perform request action l disk := by
    rw [execute_eq hroot, hlocated]
  simp only [dispatch, IntegrationRegistry.find, hget, if_neg hlisted, hallowed]
  exact hexecute

theorem holds_of_write {payload : Fields} {content : String} {disk : Disk} {l : Location}
    (hcanonical : FileSystem.Canonical disk.link? l)
    (hcontent : payload.get? "content" = some (.str content)) {fields : Fields}
    (hok : (self.write (FileSystem.pathTo l) payload disk).1 = .ok fields) :
    Holds disk l content.toUTF8 (self.write (FileSystem.pathTo l) payload disk).2 := by
  rcases self.write_cases hcanonical payload with
    ⟨failure, made, -, hwrite⟩ | ⟨content', fields', made, hgrown, hl, habove, -, hcontent', hwrite⟩
  · rw [hwrite] at hok
    cases hok
  · rw [hwrite]
    obtain rfl : content = content' :=
      Value.str.inj (Option.some.inj (hcontent.symm.trans hcontent'))
    have hlink : FileSystem.link? made l = none :=
      hgrown.link?_eq ▸ hcanonical.link l List.prefix_rfl
    refine ⟨(link?_put hl hlink _).trans hgrown.link?_eq, ?_,
      FileSystem.above_put hl (.file content.toUTF8) habove⟩
    rw [FileSystem.node_put made hl, if_pos rfl]

theorem read_of_holds {disk later : Disk} {l : Location} {content : String}
    (hcanonical : FileSystem.Canonical disk.link? l) (h : Holds disk l content.toUTF8 later) :
    self.read (FileSystem.pathTo l) later
      = .ok [("action", .str "read"), ("path", .str (pathText (FileSystem.pathTo l))),
          ("content", .str (asRead content)), ("size_bytes", .int content.toUTF8.size)] := by
  have hcanonical' : FileSystem.Canonical later.link? l := h.link ▸ hcanonical
  have hstat : later.stat self.cwd (FileSystem.pathTo l) = some (.file content.toUTF8) :=
    (FileSystem.stat_pathTo_iff hcanonical' self.cwd).2 ⟨h.node, h.above⟩
  have hfile : later.isFile self.cwd (FileSystem.pathTo l) = true := by
    rw [FileSystem.isFile, hstat]
  have hread : later.readFile self.cwd (FileSystem.pathTo l) = .ok content.toUTF8 :=
    (FileSystem.readFile_pathTo_iff hcanonical').2 ⟨h.node, h.above⟩
  rw [read, hstat, hfile, hread]
  simp only [Option.isNone_some, Bool.false_eq_true, if_false, Bool.not_true, decode_toUTF8]

section

variable {registry : IntegrationRegistry Disk} (hroot : self.root = some root)
  (hregistry : ∀ name integration, registry.get? name = some integration →
    integration = self.integration)

include hroot hregistry

theorem Holds.manager {disk later : Disk} {l : Location} {bytes : ByteArray} (hlinks : disk.Unlooped)
    (h : Holds disk l bytes later) (hother : self.locate root request disk ≠ .ok ("write", l)) :
    Holds disk l bytes (Integrations.execute registry request later).2 := by
  rw [execute_state]
  rcases dispatch_cases_of hregistry request with ⟨failure, hfails⟩ | hruns
  · rw [hfails]
    exact h
  · rw [hruns]
    exact h.execute hroot hlinks hother

theorem Holds.run {disk later : Disk} {l : Location} {bytes : ByteArray}
    {requests : List IntegrationRequest} (hlinks : disk.Unlooped) (h : Holds disk l bytes later)
    (hother : ∀ request ∈ requests, self.locate root request disk ≠ .ok ("write", l)) :
    Holds disk l bytes (Integrations.run registry requests later).2 := by
  induction requests generalizing later with
  | nil => exact h
  | cons request rest ih =>
      exact ih (h.manager hroot hregistry hlinks (hother request List.mem_cons_self))
        fun request hmem => hother request (List.mem_cons_of_mem _ hmem)

omit hregistry in
/-- A write that is answered leaves the content where the request was located. -/
theorem holds_of_answered {disk : Disk} (hlinks : disk.Unlooped) {writing : IntegrationRequest}
    {l : Location} {content : String} {answer : IntegrationResponse}
    (hwriter : registry.get? writing.integration = some self.integration)
    (hwriting : self.locate root writing disk = .ok ("write", l))
    (hcontent : writing.payload.get? "content" = some (.str content))
    (hanswered : (Integrations.execute registry writing disk).1 = .ok answer) :
    Holds disk l content.toUTF8 (Integrations.execute registry writing disk).2 := by
  rw [execute_ok_iff, dispatch_eq hwriter hroot hlinks hwriting] at hanswered
  rw [execute_state, dispatch_eq hwriter hroot hlinks hwriting]
  have hact : self.act writing "write" (FileSystem.pathTo l) disk
      = self.write (FileSystem.pathTo l) writing.payload disk := rfl
  rw [perform, hact] at hanswered ⊢
  have hheld : ∀ fields, (self.write (FileSystem.pathTo l) writing.payload disk).1 = .ok fields →
      Holds disk l content.toUTF8 (self.write (FileSystem.pathTo l) writing.payload disk).2 :=
    fun _ => holds_of_write (locate_ok hlinks hwriting).2.2.2 hcontent
  generalize self.write (FileSystem.pathTo l) writing.payload disk = written at hanswered hheld ⊢
  obtain ⟨failure | fields, after⟩ := written
  · cases hanswered
  · exact hheld fields rfl

omit hregistry in
/-- A read on a later disk answers what the location holds there. -/
theorem Holds.answered {disk disk' : Disk} {l : Location} {content : String}
    (h : Holds disk l content.toUTF8 disk') (hlinks : disk.Unlooped) {reading : IntegrationRequest}
    (hreader : registry.get? reading.integration = some self.integration)
    (hreading : self.locate root reading disk = .ok ("read", l)) :
    (Integrations.execute registry reading disk').1
      = .ok (self.respond reading "read" (FileSystem.pathTo l)
          [("action", .str "read"), ("path", .str (pathText (FileSystem.pathTo l))),
            ("content", .str (asRead content)), ("size_bytes", .int content.toUTF8.size)]) := by
  rw [execute_ok_iff, dispatch_eq hreader hroot (hlinks.congr h.link.symm)
      (locate_congr hlinks h.link.symm reading ▸ hreading),
    perform, show self.act reading "read" (FileSystem.pathTo l) disk'
      = (self.read (FileSystem.pathTo l) disk', disk') from rfl,
    read_of_holds (locate_ok hlinks hreading).2.2.2 h]

/-- What a request has written is what a later request reads, when no request in between writes to the
same location. The two may name it by different paths: what counts is the location they resolve to on
the disk that the first request found. -/
theorem run_read_written {disk : Disk} (hlinks : disk.Unlooped) {writing reading : IntegrationRequest}
    {between : List IntegrationRequest} {l : Location} {content : String}
    {answer : IntegrationResponse}
    (hwriter : registry.get? writing.integration = some self.integration)
    (hwriting : self.locate root writing disk = .ok ("write", l))
    (hcontent : writing.payload.get? "content" = some (.str content))
    (hanswered : (Integrations.execute registry writing disk).1 = .ok answer)
    (hbetween : ∀ request ∈ between, self.locate root request disk ≠ .ok ("write", l))
    (hreader : registry.get? reading.integration = some self.integration)
    (hreading : self.locate root reading disk = .ok ("read", l)) :
    (Integrations.run registry (writing :: between ++ [reading]) disk).1.getLast?
      = some (.ok (self.respond reading "read" (FileSystem.pathTo l)
          [("action", .str "read"), ("path", .str (pathText (FileSystem.pathTo l))),
            ("content", .str (asRead content)), ("size_bytes", .int content.toUTF8.size)])) := by
  have hwritten := holds_of_answered hroot hlinks hwriter hwriting hcontent hanswered
  have hheld : Holds disk l content.toUTF8 (Integrations.run registry (writing :: between) disk).2 := by
    show Holds disk l _
      (Integrations.run registry between (Integrations.execute registry writing disk).2).2
    exact hwritten.run hroot hregistry hlinks hbetween
  have hread := hheld.answered hroot hlinks hreader hreading
  rw [run_append, List.getLast?_append, Integrations.run, Integrations.run, hread]
  rfl

omit hroot hregistry in
theorem boxWriting_answered :
    ∃ answer, (Integrations.execute boxRegistry boxWriting boxDisk).1 = .ok answer := by
  have hwrite : (boxProvider.write (FileSystem.pathTo ["srv", "box", "data", "a.txt"])
      boxWriting.payload boxDisk).1
      = .ok [("action", .str "write"),
          ("path", .str (pathText (FileSystem.pathTo ["srv", "box", "data", "a.txt"]))),
          ("size_bytes", .int "x".toUTF8.size)] := by rfl
  have hact : boxProvider.act boxWriting "write" (FileSystem.pathTo ["srv", "box", "data", "a.txt"])
      boxDisk = boxProvider.write (FileSystem.pathTo ["srv", "box", "data", "a.txt"])
        boxWriting.payload boxDisk := rfl
  have hget : boxRegistry.get? boxWriting.integration = some boxProvider.integration := rfl
  simp only [execute_ok_iff, dispatch_eq hget rfl boxDisk_unlooped boxWriting_locate, perform, hact]
  generalize boxProvider.write (FileSystem.pathTo ["srv", "box", "data", "a.txt"])
    boxWriting.payload boxDisk = written at hwrite
  obtain ⟨result, after⟩ := written
  obtain rfl := hwrite
  exact ⟨_, rfl⟩

omit hroot hregistry in
theorem run_read_written_box :
    (Integrations.run boxRegistry [boxWriting, boxRequest "list" "out/.." [], boxReading]
        boxDisk).1.getLast?
      = some (.ok (boxProvider.respond boxReading "read"
          (FileSystem.pathTo ["srv", "box", "data", "a.txt"])
          [("action", .str "read"),
            ("path", .str (pathText (FileSystem.pathTo ["srv", "box", "data", "a.txt"]))),
            ("content", .str (asRead "x")), ("size_bytes", .int "x".toUTF8.size)])) := by
  obtain ⟨answer, hanswer⟩ := boxWriting_answered
  refine @run_read_written boxProvider ["srv", "box"] boxRegistry rfl boxRegistry_only boxDisk
    boxDisk_unlooped boxWriting boxReading [boxRequest "list" "out/.." []] _ "x" answer rfl
    boxWriting_locate rfl hanswer ?_ rfl boxReading_locate
  intro request hmem hwrite
  obtain rfl := List.mem_singleton.1 hmem
  have haction := (locate_ok boxDisk_unlooped hwrite).1
  have hlist : (boxRequest "list" "out/.." []).action = .str "list" := rfl
  rw [hlist] at haction
  exact absurd (Value.str.inj haction) (by decide)

end

end FilesystemIntegration

end PersonalDevin.Integrations
