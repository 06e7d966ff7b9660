import Agentive.Framing
import Agentive.Payload

/-! Names of objects: the key of an object, the path below the root of a storage that it stands
for, and the names of the temporary files beside it. -/

namespace Agentive

theorem hexByte_injective : Function.Injective hexByte := by
  have hdigit : ∀ m < 16, ∀ n < 16, hexDigit m = hexDigit n → m = n := by decide
  intro a b h
  obtain ⟨hhigh, hlow⟩ : hexDigit (a.toNat / 16) = hexDigit (b.toNat / 16) ∧
      hexDigit (a.toNat % 16) = hexDigit (b.toNat % 16) := by simpa [hexByte] using h
  have ha := a.toNat_lt
  have hb := b.toNat_lt
  have hhigh := hdigit _ (by omega) _ (by omega) hhigh
  have hlow := hdigit _ (by omega) _ (by omega) hlow
  exact UInt8.toNat_inj.mp (by omega)

theorem ObjectId.toList_toHex (id : ObjectId) :
    id.toHex.toList = id.bytes.toList.flatMap hexByte := by
  rw [ObjectId.toHex, hex, String.toList_ofList]

theorem ObjectId.toHex_injective : Function.Injective ObjectId.toHex := by
  intro a b h
  have hlist := congrArg String.toList h
  rw [ObjectId.toList_toHex, ObjectId.toList_toHex] at hlist
  have hlength : a.bytes.toList.length = b.bytes.toList.length := by
    rw [Vector.length_toList, Vector.length_toList]
  have hwidth (byte : UInt8) : (hexByte byte).length = 2 := rfl
  have hbytes := Framing.flatMap_inj hwidth hexByte_injective hlength hlist
  cases a
  cases b
  rw [ObjectId.mk.injEq]
  exact Vector.toList_inj.mp hbytes

theorem ObjectId.length_toHex (id : ObjectId) : id.toHex.toList.length = 32 := by
  rw [ObjectId.toList_toHex, hexBytes_length, Vector.length_toList]

theorem ObjectId.isLowerHexDigit_of_mem {id : ObjectId} {c : Char} (h : c ∈ id.toHex.toList) :
    isLowerHexDigit c = true := by
  rw [ObjectId.toList_toHex] at h
  obtain ⟨byte, _, hbyte⟩ := List.mem_flatMap.mp h
  have hlt := byte.toNat_lt
  simp only [hexByte, List.mem_cons, List.not_mem_nil, or_false] at hbyte
  rcases hbyte with rfl | rfl
  · exact (hexDigit_isLowerHexDigit (by omega)).1
  · exact (hexDigit_isLowerHexDigit (by omega)).1

theorem ObjectKey.v1For_injective : Function.Injective ObjectKey.v1For := by
  intro a b h
  have htext := congrArg String.toList (ObjectKey.mk.inj h)
  simp only [String.toList_append] at htext
  have hlength : a.toHex.toList.length = b.toHex.toList.length := by
    rw [ObjectId.length_toHex, ObjectId.length_toHex]
  have hhex := (List.append_inj' htext hlength).2
  exact ObjectId.toHex_injective (String.toList_inj.mp hhex)

abbrev Path := List String

namespace ObjectKey

def segments (key : ObjectKey) : List (List Char) := key.text.toList.splitOn '/'

/-- The path is relative, has no `..` and does not begin with `.`. -/
def isNormal (key : ObjectKey) : Bool :=
  key.text.toList.head? ≠ some '/' && key.segments.head? ≠ some ['.'] &&
    key.segments.all (· ≠ ['.', '.'])

/-- Empty components and inner dots do not count. -/
def relativePath (key : ObjectKey) : Path :=
  (key.segments.filter fun s => s ≠ [] && s ≠ ['.']).map String.ofList

end ObjectKey

def pathFor (root : Path) (key : ObjectKey) : Except PayloadError Path :=
  if key.isNormal then .ok (root ++ key.relativePath)
  else .error (.invalidInput "object key" "must be a relative normal path")

def parent (path : Path) : Option Path := if path = [] then none else some path.dropLast

def tempPath (parent : Path) (id : ObjectId) : Path :=
  parent ++ [".agentive-" ++ id.toHex ++ ".tmp"]

/-- The directory of an object. -/
def shardPath (root : Path) (id : ObjectId) : Path :=
  root ++ ["v1", "objects", String.ofList (id.toHex.toList.take 3)]

def objectPath (root : Path) (id : ObjectId) : Path := shardPath root id ++ [id.toHex]

theorem ObjectKey.segments_v1For (id : ObjectId) : (ObjectKey.v1For id).segments =
    [['v', '1'], ['o', 'b', 'j', 'e', 'c', 't', 's'], id.toHex.toList.take 3,
      id.toHex.toList] := by
  have hslash : isLowerHexDigit '/' = false := by decide
  have hhex : '/' ∉ id.toHex.toList := by
    intro hmem
    have hdigit := ObjectId.isLowerHexDigit_of_mem hmem
    simp [hslash] at hdigit
  have hshard : '/' ∉ id.toHex.toList.take 3 := fun hmem => hhex (List.mem_of_mem_take hmem)
  have htext : (ObjectKey.v1For id).text.toList = ['v', '1'] ++ '/' ::
      (['o', 'b', 'j', 'e', 'c', 't', 's'] ++ '/' :: (id.toHex.toList.take 3 ++ '/' ::
        id.toHex.toList)) := by
    simp only [ObjectKey.v1For, String.toList_append, String.toList_ofList]
    simp
  rw [ObjectKey.segments, htext, List.splitOn_append_cons_self_of_not_mem (by decide),
    List.splitOn_append_cons_self_of_not_mem (by decide),
    List.splitOn_append_cons_self_of_not_mem hshard, List.splitOn_eq_singleton hhex]

theorem ObjectKey.ne_dots_of_mem {id : ObjectId} {s : List Char}
    (h : s ∈ (ObjectKey.v1For id).segments) : s ≠ [] ∧ s ≠ ['.'] ∧ s ≠ ['.', '.'] := by
  have hne {t : List Char} (hlength : t.length < s.length) : s ≠ t := fun he => by
    rw [he] at hlength
    exact Nat.lt_irrefl _ hlength
  have hhex := id.length_toHex
  rw [ObjectKey.segments_v1For] at h
  simp only [List.mem_cons, List.not_mem_nil, or_false] at h
  rcases h with rfl | rfl | rfl | rfl
  · decide
  · decide
  · have hlength : (id.toHex.toList.take 3).length = 3 := by
      rw [List.length_take, hhex]
      rfl
    exact ⟨hne (by simp [hlength]), hne (by simp [hlength]), hne (by simp [hlength])⟩
  · exact ⟨hne (by simp [hhex]), hne (by simp [hhex]), hne (by simp [hhex])⟩

theorem ObjectKey.isNormal_v1For (id : ObjectId) : (ObjectKey.v1For id).isNormal = true := by
  have hroot : (ObjectKey.v1For id).text.toList.head? ≠ some '/' := by simp [ObjectKey.v1For]
  have hfirst : (ObjectKey.v1For id).segments.head? ≠ some ['.'] := by
    rw [ObjectKey.segments_v1For]
    simp
  have hup : (ObjectKey.v1For id).segments.all (· ≠ ['.', '.']) = true :=
    List.all_eq_true.mpr fun s hs => decide_eq_true (ObjectKey.ne_dots_of_mem hs).2.2
  rw [ObjectKey.isNormal, hup]
  simp [hroot, hfirst]

theorem ObjectKey.relativePath_v1For (id : ObjectId) : (ObjectKey.v1For id).relativePath =
    ["v1", "objects", String.ofList (id.toHex.toList.take 3), id.toHex] := by
  have hfilter : (ObjectKey.v1For id).segments.filter (fun s => s ≠ [] && s ≠ ['.']) =
      (ObjectKey.v1For id).segments := by
    refine List.filter_eq_self.mpr fun s hs => ?_
    obtain ⟨hnil, hdot, _⟩ := ObjectKey.ne_dots_of_mem hs
    simp [hnil, hdot]
  rw [ObjectKey.relativePath, hfilter, ObjectKey.segments_v1For]
  simp

/-- The keys of objects are accepted, and this is their path. -/
theorem pathFor_v1For (root : Path) (id : ObjectId) :
    pathFor root (.v1For id) = .ok (objectPath root id) := by
  rw [pathFor, if_pos (ObjectKey.isNormal_v1For id), ObjectKey.relativePath_v1For, objectPath,
    shardPath, List.append_assoc]
  rfl

theorem parent_objectPath (root : Path) (id : ObjectId) :
    parent (objectPath root id) = some (shardPath root id) := by
  have hne : objectPath root id ≠ [] := by simp [objectPath]
  rw [parent, if_neg hne, objectPath, List.dropLast_concat]

theorem objectPath_injective (root : Path) : Function.Injective (objectPath root) := by
  intro a b h
  have hlast := (List.append_inj' h rfl).2
  exact ObjectId.toHex_injective (by simpa using hlast)

theorem tempPath_ne_objectPath {root dir : Path} {id other : ObjectId} :
    tempPath dir id ≠ objectPath root other := by
  intro h
  have hname := (List.append_inj' h rfl).2
  have hlength := congrArg (fun name => name.map fun s => s.toList.length) hname
  have hid := id.length_toHex
  have hother := other.length_toHex
  simp only [List.map_cons, List.map_nil, String.toList_append, List.length_append, hid, hother,
    List.cons.injEq, and_true] at hlength
  have hstart : ".agentive-".toList.length = 10 := by decide
  omega

theorem tempPath_inj {dir dir' : Path} {a b : ObjectId} (h : tempPath dir a = tempPath dir' b) :
    a = b := by
  have hname := (List.append_inj' h rfl).2
  have htext := congrArg (fun name => name.map String.toList) hname
  simp only [List.map_cons, List.map_nil, String.toList_append, List.cons.injEq, and_true,
    List.append_assoc, List.append_right_inj, List.append_left_inj] at htext
  exact ObjectId.toHex_injective (String.toList_inj.mp htext)

end Agentive
