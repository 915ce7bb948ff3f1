import Seele.Filesystem.Resolve

/-!
# File permissions

`check_access_permissions_for_ids_with_options` of `metadata/access.rs` does not compare the ids of
the kernel: both the ids of the process and those of the file are first translated by the maps of
the user namespace, and an id that no line of a map is about becomes `USER_NAMESPACE_OVERFLOW_ID`.

The Unix model picks the class of permission bits by the ids of the kernel (`unixShift`), and lets
the root of a namespace override the bits of all files whose owners the namespace knows.
`FollowsUnix` says this of an access, and `followsUnix_iff` when it is true. The override needs the
owner to be the root itself, and the classes are right as long as the maps do not merge ids that are
compared.

Any text is accepted as a map. `consistent_iff` says when its two readings undo each other.
-/

namespace Seele.Access

open Seele.Filesystem Option

/-! ## Maps of ids -/

/-- `USER_NAMESPACE_OVERFLOW_ID`. -/
def USER_NAMESPACE_OVERFLOW_ID : ℕ := 65534

/-- `u32::MAX`. -/
def U32_MAX : ℕ := 0xffffffff

/-- `char::is_whitespace`. -/
def isWhitespace (c : Char) : Bool :=
  (9 ≤ c.toNat ∧ c.toNat ≤ 13) ∨ c.toNat = 0x20 ∨ c.toNat = 0x85 ∨ c.toNat = 0xa0 ∨
    c.toNat = 0x1680 ∨ (0x2000 ≤ c.toNat ∧ c.toNat ≤ 0x200a) ∨ c.toNat = 0x2028 ∨
    c.toNat = 0x2029 ∨ c.toNat = 0x202f ∨ c.toNat = 0x205f ∨ c.toNat = 0x3000

/-- `split_whitespace`. -/
def splitWhitespace (text : List Char) : List (List Char) :=
  (text.splitOnP isWhitespace).filter (· ≠ [])

/-- `lines`. A carriage return at the end of a line is whitespace to `splitWhitespace`, and is left
there. -/
def lines (text : List Char) : List (List Char) :=
  let parts := text.splitOn '\n'
  if parts.getLast? = some [] then parts.dropLast else parts

/-- `parse::<u32>`. -/
def parseU32 (text : List Char) : Option ℕ :=
  let digits := if text.head? = some '+' then text.tail else text
  if digits = [] ∨ ¬ digits.all Char.isDigit then none
  else
    let value := digits.foldl (fun value c => 10 * value + (c.toNat - '0'.toNat)) 0
    if value ≤ U32_MAX then some value else none

/-- The numbers of one line of a map. -/
structure IdRange where
  namespaceStart : ℕ
  kernelStart : ℕ
  length : ℕ
deriving DecidableEq, Repr

/-- A line with three numbers in front. Other lines are passed over. -/
def parseLine (line : List Char) : Option IdRange :=
  match splitWhitespace line with
  | namespaceStart :: kernelStart :: length :: _ => do
    return ⟨← parseU32 namespaceStart, ← parseU32 kernelStart, ← parseU32 length⟩
  | _ => none

/-- The id is in the range of the kernel's ids. The end of the range saturates. -/
def IdRange.contains (range : IdRange) (kernelId : ℕ) : Bool :=
  range.kernelStart ≤ kernelId ∧ kernelId < min (range.kernelStart + range.length) U32_MAX

/-- The first line of a map that is about an id. -/
def rangeOf (kernelId : ℕ) (map : List Char) : Option IdRange :=
  ((lines map).filterMap parseLine).find? (·.contains kernelId)

/-- `namespace_id_from_map`. The sum is a checked one; `none` stops the kernel. -/
def namespaceIdFromMap (kernelId : ℕ) : Option (List Char) → Option ℕ
  | none => some kernelId
  | some map =>
    match rangeOf kernelId map with
    | none => some USER_NAMESPACE_OVERFLOW_ID
    | some range =>
      let id := range.namespaceStart + (kernelId - range.kernelStart)
      if id ≤ U32_MAX then some id else none

/-- The namespace has an id for the id of the kernel. -/
def isMapped (kernelId : ℕ) : Option (List Char) → Bool
  | none => true
  | some map => (rangeOf kernelId map).isSome

/-! ## Credentials -/

/-- `AccessCredentials`. The ids of the namespace are those that the maps give. -/
structure AccessCredentials where
  uid : ℕ
  gid : ℕ
  supplementaryGroups : List ℕ
  namespaceUid : ℕ
  namespaceGid : ℕ
  namespaceSupplementaryGroups : List ℕ
  userNamespaceUidMap : Option (List Char)
  userNamespaceGidMap : Option (List Char)
  capabilityEffective : UInt32 × UInt32
  uid_eq : namespaceIdFromMap uid userNamespaceUidMap = some namespaceUid
  gid_eq : namespaceIdFromMap gid userNamespaceGidMap = some namespaceGid
  groups_eq : supplementaryGroups.mapM (namespaceIdFromMap · userNamespaceGidMap) =
    some namespaceSupplementaryGroups

/-- The fields of a process that credentials are made of. -/
structure ProcessIds where
  realUid : ℕ
  effectiveUid : ℕ
  fsUid : ℕ
  realGid : ℕ
  effectiveGid : ℕ
  fsGid : ℕ
  supplementaryGroups : List ℕ
  userNamespaceUidMap : Option (List Char)
  userNamespaceGidMap : Option (List Char)
  capabilityEffective : UInt32 × UInt32

/-- The credentials of a process for given ids and capabilities. -/
def ProcessIds.credentials (process : ProcessIds) (uid gid : ℕ)
    (capabilityEffective : UInt32 × UInt32) : Option AccessCredentials :=
  match huid : namespaceIdFromMap uid process.userNamespaceUidMap,
    hgid : namespaceIdFromMap gid process.userNamespaceGidMap,
    hgroups : process.supplementaryGroups.mapM
      (namespaceIdFromMap · process.userNamespaceGidMap) with
  | some namespaceUid, some namespaceGid, some namespaceSupplementaryGroups =>
    some ⟨uid, gid, process.supplementaryGroups, namespaceUid, namespaceGid,
      namespaceSupplementaryGroups, process.userNamespaceUidMap, process.userNamespaceGidMap,
      capabilityEffective, huid, hgid, hgroups⟩
  | _, _, _ => none

/-- `access_credentials`. -/
def accessCredentials (useEffectiveIds : Bool) (process : ProcessIds) : Option AccessCredentials :=
  if useEffectiveIds then
    process.credentials process.effectiveUid process.effectiveGid process.capabilityEffective
  else process.credentials process.realUid process.realGid (0, 0)

/-- `fs_access_credentials`. -/
def fsAccessCredentials (process : ProcessIds) : Option AccessCredentials :=
  process.credentials process.fsUid process.fsGid process.capabilityEffective

/-- `CAP_DAC_OVERRIDE`. -/
def CAP_DAC_OVERRIDE : ℕ := 1

/-- `CAP_DAC_READ_SEARCH`. -/
def CAP_DAC_READ_SEARCH : ℕ := 2

/-- `has_capability`. -/
def hasCapability (credentials : AccessCredentials) (capability : ℕ) : Bool :=
  let mask : UInt32 := 1 <<< UInt32.ofNat (capability % 32)
  match capability / 32 with
  | 0 => credentials.capabilityEffective.1 &&& mask ≠ 0
  | 1 => credentials.capabilityEffective.2 &&& mask ≠ 0
  | _ => false

/-! ## The check -/

/-- `LinuxStat`, as far as it is read here. -/
structure LinuxStat where
  stMode : UInt32
  stUid : ℕ
  stGid : ℕ
deriving DecidableEq, Repr

/-- The errors of `SyscallError` that the checks return. -/
inductive SyscallError where
  | accessDenied
  | notADirectory
  | fs (error : FSError)
deriving DecidableEq, Repr

/-- `S_IFMT`. -/
def S_IFMT : UInt32 := 0o170000

/-- `S_IFDIR`. -/
def S_IFDIR : UInt32 := 0o040000

/-- `mapped_file_uid`. -/
def mappedFileUid (uid : ℕ) (credentials : AccessCredentials) : Option ℕ :=
  namespaceIdFromMap uid credentials.userNamespaceUidMap

/-- `mapped_file_gid`. -/
def mappedFileGid (gid : ℕ) (credentials : AccessCredentials) : Option ℕ :=
  namespaceIdFromMap gid credentials.userNamespaceGidMap

variable (stat : LinuxStat)

/-- `permission_shift`: 6 for the owner, 3 for the group and 0 for others. -/
def permissionShift (credentials : AccessCredentials) : Option ℕ := do
  let ownerUid ← mappedFileUid stat.stUid credentials
  let ownerGid ← mappedFileGid stat.stGid credentials
  return if credentials.namespaceUid = ownerUid then 6
    else if credentials.namespaceGid = ownerGid ∨
      ownerGid ∈ credentials.namespaceSupplementaryGroups then 3
    else 0

/-- The bits of a class allow the access. -/
def bitsAllow (shift : ℕ) (mode : UInt32) : Bool :=
  let permission := ((stat.stMode &&& 0o777) >>> UInt32.ofNat shift) &&& 0o7
  ¬ (mode &&& 4 ≠ 0 ∧ permission &&& 0o4 = 0) ∧ ¬ (mode &&& 2 ≠ 0 ∧ permission &&& 0o2 = 0) ∧
    ¬ (mode &&& 1 ≠ 0 ∧ permission &&& 0o1 = 0)

/-- `check_access_permissions_for_ids_with_options`. The owner is translated on every way that does
not return before. -/
def checkAccessPermissionsForIdsWithOptions (mode : UInt32)
    (credentials : AccessCredentials) (allowRootDirectorySearch : Bool) :
    Option (Except SyscallError Unit) :=
  let isRoot := credentials.namespaceUid = 0
  if isRoot ∧ allowRootDirectorySearch ∧ stat.stMode &&& S_IFMT = S_IFDIR then some (.ok ())
  else if isRoot ∧ mode &&& 1 ≠ 0 ∧ stat.stMode &&& 0o777 &&& 0o111 = 0 then
    some (.error .accessDenied)
  else do
    let ownerUid ← mappedFileUid stat.stUid credentials
    let capabilityApplies := isRoot ∧ ownerUid = 0
    if isRoot ∧ ownerUid = 0 then some (.ok ())
    else if mode &&& 1 = 0 ∧ capabilityApplies ∧ mode &&& 4 ≠ 0 ∧
        hasCapability credentials CAP_DAC_READ_SEARCH then some (.ok ())
    else if mode &&& 1 = 0 ∧ capabilityApplies ∧ mode &&& 2 ≠ 0 ∧
        hasCapability credentials CAP_DAC_OVERRIDE then some (.ok ())
    else do
      let shift ← permissionShift stat credentials
      return if bitsAllow stat shift mode then .ok () else .error .accessDenied

/-- `check_access_permissions_for_ids`. -/
def checkAccessPermissionsForIds (mode : UInt32)
    (credentials : AccessCredentials) : Option (Except SyscallError Unit) :=
  checkAccessPermissionsForIdsWithOptions stat mode credentials false

/-! ## The Unix model -/

/-- The class that the ids of the kernel pick. -/
def unixShift (credentials : AccessCredentials) : ℕ :=
  if credentials.uid = stat.stUid then 6
  else if credentials.gid = stat.stGid ∨ stat.stGid ∈ credentials.supplementaryGroups then 3
  else 0

/-- The access is decided as in Unix: the bits of the right class count, and the root of the
namespace with `CAP_DAC_OVERRIDE` may read and write every file with a mapped owner. -/
structure FollowsUnix (stat : LinuxStat) (mode : UInt32) (credentials : AccessCredentials) :
    Prop where
  shift : permissionShift stat credentials = some (unixShift stat credentials)
  override : credentials.namespaceUid = 0 → hasCapability credentials CAP_DAC_OVERRIDE = true →
    isMapped stat.stUid credentials.userNamespaceUidMap = true → mode &&& 1 = 0 →
    ∀ allow, checkAccessPermissionsForIdsWithOptions stat mode credentials allow = some (.ok ())

/-- The map takes two ids to one. -/
def Merges (map : Option (List Char)) (a b : ℕ) : Prop :=
  a ≠ b ∧ namespaceIdFromMap a map = namespaceIdFromMap b map

/-- The ids of the file can be translated, the maps do not merge ids of the process with those of
the file, and the root needs no capability for the access. -/
structure Distinguishes (stat : LinuxStat) (mode : UInt32) (credentials : AccessCredentials) :
    Prop where
  uid : (mappedFileUid stat.stUid credentials).isSome = true
  gid : (mappedFileGid stat.stGid credentials).isSome = true
  owner : ¬ Merges credentials.userNamespaceUidMap credentials.uid stat.stUid
  group : credentials.uid = stat.stUid ∨
    stat.stGid ∈ credentials.gid :: credentials.supplementaryGroups ∨
    ∀ gid ∈ credentials.gid :: credentials.supplementaryGroups,
      ¬ Merges credentials.userNamespaceGidMap gid stat.stGid
  override : credentials.namespaceUid = 0 → hasCapability credentials CAP_DAC_OVERRIDE = true →
    isMapped stat.stUid credentials.userNamespaceUidMap = true → mode &&& 1 = 0 →
    mappedFileUid stat.stUid credentials = some 0 ∨
      bitsAllow stat (unixShift stat credentials) mode = true

section

variable {stat : LinuxStat} {mode : UInt32} {credentials : AccessCredentials}

/-- The members of a mapped list. -/
theorem mem_of_mapM {α β : Type} {f : α → Option β} {l : List α} {l' : List β}
    (h : l.mapM f = some l') {b : β} : b ∈ l' ↔ ∃ a ∈ l, f a = some b := by
  induction l generalizing l' with
  | nil =>
    cases h
    simp
  | cons a l ih =>
  rw [List.mapM_cons] at h
  obtain ⟨first, hfirst, h⟩ := bind_eq_some_iff.mp h
  obtain ⟨rest, hrest, h⟩ := bind_eq_some_iff.mp h
  grind

/-- Two ids have one image if the map merges them. -/
theorem merges_or {map : Option (List Char)} {a b : ℕ} :
    namespaceIdFromMap a map = namespaceIdFromMap b map ↔ a = b ∨ Merges map a b := by
  grind [Merges]

/-- The owner class is picked for the owner, and for a process whose id is merged with the owner's.
-/
theorem namespaceUid_eq_iff {ownerUid : ℕ}
    (howner : mappedFileUid stat.stUid credentials = some ownerUid) :
    credentials.namespaceUid = ownerUid ↔ credentials.uid = stat.stUid ∨
      Merges credentials.userNamespaceUidMap credentials.uid stat.stUid := by
  unfold mappedFileUid at howner
  grind [merges_or, credentials.uid_eq]

/-- When a group is the owner's. -/
theorem namespaceGid_eq_iff {ownerGid : ℕ}
    (howner : mappedFileGid stat.stGid credentials = some ownerGid) :
    (credentials.namespaceGid = ownerGid ∨ ownerGid ∈ credentials.namespaceSupplementaryGroups) ↔
      ∃ gid ∈ credentials.gid :: credentials.supplementaryGroups,
        gid = stat.stGid ∨ Merges credentials.userNamespaceGidMap gid stat.stGid := by
  unfold mappedFileGid at howner
  have hone : ∀ gid, (gid = stat.stGid ∨ Merges credentials.userNamespaceGidMap gid stat.stGid) ↔
      namespaceIdFromMap gid credentials.userNamespaceGidMap = some ownerGid := by
    intro gid
    rw [← merges_or, howner]
  rw [mem_of_mapM credentials.groups_eq, List.exists_mem_cons_iff, hone, credentials.gid_eq,
    some.injEq]
  simp only [hone]

/-- When the shift is the usual one. -/
theorem permissionShift_eq_iff :
    permissionShift stat credentials = some (unixShift stat credentials) ↔
      (mappedFileUid stat.stUid credentials).isSome = true ∧
      (mappedFileGid stat.stGid credentials).isSome = true ∧
      ¬ Merges credentials.userNamespaceUidMap credentials.uid stat.stUid ∧
      (credentials.uid = stat.stUid ∨
        stat.stGid ∈ credentials.gid :: credentials.supplementaryGroups ∨
        ∀ gid ∈ credentials.gid :: credentials.supplementaryGroups,
          ¬ Merges credentials.userNamespaceGidMap gid stat.stGid) := by
  cases howner : mappedFileUid stat.stUid credentials with
  | none => simp [permissionShift, howner]
  | some ownerUid =>
  cases hgroup : mappedFileGid stat.stGid credentials with
  | none => simp [permissionShift, hgroup]
  | some ownerGid =>
  have hshift : permissionShift stat credentials =
      some (if credentials.namespaceUid = ownerUid then 6
        else if credentials.namespaceGid = ownerGid ∨
          ownerGid ∈ credentials.namespaceSupplementaryGroups then 3
        else 0) := by
    unfold permissionShift
    rw [howner, hgroup]
    rfl
  have huid := namespaceUid_eq_iff howner
  have hgid := namespaceGid_eq_iff hgroup
  have hmember : (credentials.gid = stat.stGid ∨ stat.stGid ∈ credentials.supplementaryGroups) ↔
      stat.stGid ∈ credentials.gid :: credentials.supplementaryGroups := by
    rw [List.mem_cons, eq_comm]
  simp only [hshift]
  unfold unixShift
  by_cases hsame : credentials.uid = stat.stUid
  · grind [Merges]
  rw [if_neg hsame]
  by_cases hmerges : Merges credentials.userNamespaceUidMap credentials.uid stat.stUid
  · -- The owner class is picked for a process that is not the owner.
    grind
  have hother : ¬ credentials.namespaceUid = ownerUid :=
    fun heq => (huid.mp heq).elim hsame hmerges
  rw [if_neg hother]
  by_cases hin : stat.stGid ∈ credentials.gid :: credentials.supplementaryGroups
  · grind
  rw [if_neg (fun h => hin (hmember.mp h))]
  by_cases hpicked : credentials.namespaceGid = ownerGid ∨
      ownerGid ∈ credentials.namespaceSupplementaryGroups
  · -- The group class is picked through a group that is merged with that of the file.
    obtain ⟨gid, hmem, heq | hgroupMerges⟩ := hgid.mp hpicked
    · exact absurd (heq ▸ hmem) hin
    rw [if_pos hpicked]
    refine ⟨fun heq => absurd heq (by decide), fun h => ?_⟩
    grind
  · grind

/-- What the root of a namespace is told about reading and writing. The capabilities are looked at
only where the access has been granted already. -/
theorem check_of_root {ownerUid shift : ℕ} (hroot : credentials.namespaceUid = 0)
    (hmode : mode &&& 1 = 0) (howner : mappedFileUid stat.stUid credentials = some ownerUid)
    (hshift : permissionShift stat credentials = some shift) (allow : Bool) :
    checkAccessPermissionsForIdsWithOptions stat mode credentials allow =
      some (if (allow = true ∧ stat.stMode &&& S_IFMT = S_IFDIR) ∨ ownerUid = 0 ∨
        bitsAllow stat shift mode = true then .ok () else .error .accessDenied) := by
  unfold checkAccessPermissionsForIdsWithOptions
  grind

/-- An access is decided as in Unix exactly if the ids are told apart and the root needs no
capability. -/
theorem followsUnix_iff (stat : LinuxStat) (mode : UInt32) (credentials : AccessCredentials) :
    FollowsUnix stat mode credentials ↔ Distinguishes stat mode credentials := by
  have hreturns : ∀ {ownerUid : ℕ}, credentials.namespaceUid = 0 → mode &&& 1 = 0 →
      mappedFileUid stat.stUid credentials = some ownerUid →
      permissionShift stat credentials = some (unixShift stat credentials) →
      ((∀ allow, checkAccessPermissionsForIdsWithOptions stat mode credentials allow =
          some (.ok ())) ↔
        some ownerUid = some 0 ∨ bitsAllow stat (unixShift stat credentials) mode = true) := by
    intro ownerUid hroot hmode howner hshift
    simp only [check_of_root hroot hmode howner hshift, some.injEq]
    refine ⟨fun h => ?_, fun h allow => if_pos (.inr h)⟩
    have hfalse := h false
    grind
  constructor
  · rintro ⟨hshift, hoverride⟩
    obtain ⟨huid, hgid, howner, hgroup⟩ := permissionShift_eq_iff.mp hshift
    refine ⟨huid, hgid, howner, hgroup, fun hroot hcapability hmapped hmode => ?_⟩
    obtain ⟨ownerUid, hownerUid⟩ := isSome_iff_exists.mp huid
    grind
  rintro ⟨huid, hgid, howner, hgroup, hoverride⟩
  have hshift := permissionShift_eq_iff.mpr ⟨huid, hgid, howner, hgroup⟩
  refine ⟨hshift, fun hroot hcapability hmapped hmode => ?_⟩
  obtain ⟨ownerUid, hownerUid⟩ := isSome_iff_exists.mp huid
  grind

/-- Process 1000 is not in the namespace that maps the 1000 ids from 100000 on. -/
def unmappedProcess : ProcessIds :=
  ⟨1000, 1000, 1000, 1000, 1000, 1000, [], some "0 100000 1000\n".toList,
    some "0 100000 1000\n".toList, (0, 0)⟩

/-- The root of the first namespace, with all capabilities. -/
def rootProcess : ProcessIds :=
  ⟨0, 0, 0, 0, 0, 0, [], none, none, (0xffffffff, 0xffffffff)⟩

/-- A process with an unmapped id reads the private file of another one, and the root with
`CAP_DAC_OVERRIDE` may not read the file of user 1000. -/
theorem access_differs_from_unix : ((fsAccessCredentials unmappedProcess).map fun credentials =>
      (checkAccessPermissionsForIds ⟨0o100600, 2000, 2000⟩ 4 credentials,
        permissionShift ⟨0o100600, 2000, 2000⟩ credentials,
        unixShift ⟨0o100600, 2000, 2000⟩ credentials)) =
      some (some (.ok ()), some 6, 0) ∧
    ((fsAccessCredentials rootProcess).map fun credentials =>
      (hasCapability credentials CAP_DAC_OVERRIDE,
        checkAccessPermissionsForIds ⟨0o100600, 1000, 1000⟩ 4 credentials)) =
      some (true, some (.error .accessDenied)) := by
  decide +kernel

end

/-! ## The maps as translations -/

/-- `normalize_proc_control_write`, all that the writers of a map do to a text. -/
def normalizeProcControlWrite (content : List Char) : List Char :=
  if content.getLast? = some '\n' then content else content ++ ['\n']

/-- The id is in the range of the namespace's ids. -/
def IdRange.containsInside (range : IdRange) (namespaceId : ℕ) : Bool :=
  range.namespaceStart ≤ namespaceId ∧
    namespaceId < min (range.namespaceStart + range.length) U32_MAX

/-- The first line of a map that is about an id of the namespace. -/
def insideRangeOf (namespaceId : ℕ) (map : List Char) : Option IdRange :=
  ((lines map).filterMap parseLine).find? (·.containsInside namespaceId)

/-- `kernel_id_from_namespace_map`. The inner `none` is returned, the outer one is an overflow. -/
def kernelIdFromNamespaceMap (namespaceId : ℕ) : Option (List Char) → Option (Option ℕ)
  | none => some (some namespaceId)
  | some map =>
    match insideRangeOf namespaceId map with
    | none => some none
    | some range =>
      let id := range.kernelStart + (namespaceId - range.namespaceStart)
      if id ≤ U32_MAX then some (some id) else none

/-- The two functions do not overflow, translate the ids that a line is about back and forth, and
keep them apart. -/
structure Consistent (map : List Char) : Prop where
  total : ∀ id, namespaceIdFromMap id (some map) ≠ none ∧
    kernelIdFromNamespaceMap id (some map) ≠ none
  kernel : ∀ k, rangeOf k map ≠ none → ∃ n, namespaceIdFromMap k (some map) = some n ∧
    kernelIdFromNamespaceMap n (some map) = some (some k)
  inside : ∀ n, insideRangeOf n map ≠ none →
    ∃ k, kernelIdFromNamespaceMap n (some map) = some (some k) ∧
      namespaceIdFromMap k (some map) = some n
  kernelApart : ∀ a b, rangeOf a map ≠ none → rangeOf b map ≠ none → a ≠ b →
    namespaceIdFromMap a (some map) ≠ namespaceIdFromMap b (some map)
  insideApart : ∀ a b, insideRangeOf a map ≠ none → insideRangeOf b map ≠ none → a ≠ b →
    kernelIdFromNamespaceMap a (some map) ≠ kernelIdFromNamespaceMap b (some map)

/-- A line that is the first one about an id is also the first one about the id that it pairs with
it. There is one pair that needs no such line: `u32::MAX` is in no range, so it becomes the id for
unmapped ones. -/
structure Aligned (map : List Char) : Prop where
  kernel : ∀ k range, rangeOf k map = some range →
    insideRangeOf (range.namespaceStart + (k - range.kernelStart)) map = some range
  inside : ∀ n range, insideRangeOf n map = some range →
    rangeOf (range.kernelStart + (n - range.namespaceStart)) map = some range ∨
      n = USER_NAMESPACE_OVERFLOW_ID ∧ range.kernelStart + (n - range.namespaceStart) = U32_MAX

/-- Two searches that accept each other's results find the same. -/
theorem find_eq_find {α : Type} {p q : α → Bool} {a b : α} {l : List α} (ha : l.find? p = some a)
    (hb : l.find? q = some b) (hpb : p b = true) (hqa : q a = true) : a = b := by
  induction l with grind

/-- The translations of a map are consistent exactly if no line is hidden on one side only. -/
theorem consistent_iff (content : List Char) : Consistent (normalizeProcControlWrite content) ↔
    Aligned (normalizeProcControlWrite content) := by
  generalize normalizeProcControlWrite content = map
  have hrange : ∀ {k range}, rangeOf k map = some range →
      range.kernelStart ≤ k ∧ k < range.kernelStart + range.length ∧ k < U32_MAX :=
    fun h => by simpa [IdRange.contains] using List.find?_some h
  have hinside : ∀ {n range}, insideRangeOf n map = some range →
      range.namespaceStart ≤ n ∧ n < range.namespaceStart + range.length ∧ n < U32_MAX :=
    fun h => by simpa [IdRange.containsInside] using List.find?_some h
  constructor
  · rintro ⟨-, hkernel, hback, -, -⟩
    have hsame : ∀ {k n range other}, rangeOf k map = some range →
        insideRangeOf n map = some other → n = range.namespaceStart + (k - range.kernelStart) →
        k = other.kernelStart + (n - other.namespaceStart) → range = other := by
      intro k n range other hk hn hpair hback
      refine find_eq_find hk hn ?_ ?_ <;> grind [IdRange.contains, IdRange.containsInside]
    constructor
    · intro k range hk
      obtain ⟨n, hn, hback⟩ := hkernel k (by simp [hk])
      cases hother : insideRangeOf n map with
      | none => simp [kernelIdFromNamespaceMap, hother] at hback
      | some other => grind [namespaceIdFromMap, kernelIdFromNamespaceMap]
    · intro n range hn
      obtain ⟨k, hk, hback⟩ := hback n (by simp [hn])
      have hpair : k = range.kernelStart + (n - range.namespaceStart) ∧ k ≤ U32_MAX := by
        simp only [kernelIdFromNamespaceMap, hn] at hk
        grind
      cases hother : rangeOf k map with
      | none =>
        have hnot := List.find?_eq_none.mp hother range (List.mem_of_find?_eq_some hn)
        grind [namespaceIdFromMap, IdRange.contains]
      | some other =>
        have hrange := hsame hother hn (by grind [namespaceIdFromMap]) hpair.1
        grind
  rintro ⟨hkernel, hback⟩
  have hnamespaceId : ∀ {k n range}, rangeOf k map = some range →
      range.namespaceStart + (k - range.kernelStart) = n → n ≤ U32_MAX →
      namespaceIdFromMap k (some map) = some n := by
    rintro k n range hk rfl hle
    simp [namespaceIdFromMap, hk, hle]
  have hkernelId : ∀ {k n range}, insideRangeOf n map = some range →
      range.kernelStart + (n - range.namespaceStart) = k → k ≤ U32_MAX →
      kernelIdFromNamespaceMap n (some map) = some (some k) := by
    rintro k n range hn rfl hle
    simp [kernelIdFromNamespaceMap, hn, hle]
  have hforth : ∀ k, rangeOf k map ≠ none → ∃ n, namespaceIdFromMap k (some map) = some n ∧
      kernelIdFromNamespaceMap n (some map) = some (some k) := by
    intro k hk
    obtain ⟨range, hk⟩ := ne_none_iff_exists'.mp hk
    have hn := hkernel k range hk
    have hin := hrange hk
    have hin' := hinside hn
    exact ⟨_, hnamespaceId hk rfl (by omega), hkernelId hn (by omega) (by omega)⟩
  have hback : ∀ n, insideRangeOf n map ≠ none →
      ∃ k, kernelIdFromNamespaceMap n (some map) = some (some k) ∧
        namespaceIdFromMap k (some map) = some n := by
    intro n hn
    obtain ⟨range, hn⟩ := ne_none_iff_exists'.mp hn
    have hin := hinside hn
    rcases hback n range hn with hk | ⟨rfl, hmax⟩
    · have hin' := hrange hk
      exact ⟨_, hkernelId hn rfl (by omega), hnamespaceId hk (by omega) (by omega)⟩
    · refine ⟨U32_MAX, hkernelId hn hmax le_rfl, ?_⟩
      cases hk : rangeOf U32_MAX map with
      | none => rw [namespaceIdFromMap, hk]
      | some other => exact absurd (hrange hk).2.2 (Nat.lt_irrefl _)
  refine ⟨fun id => ⟨fun hnone => ?_, fun hnone => ?_⟩, hforth, hback, ?_, ?_⟩
  · cases hid : rangeOf id map with grind [namespaceIdFromMap]
  · cases hid : insideRangeOf id map with grind [kernelIdFromNamespaceMap]
  · intro a b ha hb hne heq
    grind [hforth a ha, hforth b hb]
  · intro a b ha hb hne heq
    grind [hback a ha, hback b hb]

/-- Neither map is consistent: two ids of the kernel become one in the first, and the second one
overflows. -/
theorem map_merges_and_overflows :
    ¬ Consistent (normalizeProcControlWrite "0 0 1\n0 1 1".toList) ∧
      ¬ Consistent (normalizeProcControlWrite "4294967295 0 2".toList) := by
  refine ⟨fun h => ?_, fun h => ?_⟩
  · exact h.kernelApart 0 1 (by decide +kernel) (by decide +kernel) (by decide) (by decide +kernel)
  · exact (h.total 1).1 (by decide +kernel)

end Seele.Access
