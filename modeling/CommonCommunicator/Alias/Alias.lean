import CommonCommunicator.Protocol.Interface

/-!
# Aliases

An alias names a provider of an application: the path of the application and
the name of the provider, which `/` joins to a full path. Alias objects are
shared between tables, and a peer may rename one; tables therefore hold
references into a heap of alias objects.
-/

namespace CommonCommunicator

/-- `IAliasPVD::convert` has a name for these types and throws for the others. -/
def IAliasPVD.Convertible (type : ProviderType) : Prop := type ≠ .notDefine ∧ type ≠ .rscIotivity

instance (type : ProviderType) : Decidable (IAliasPVD.Convertible type) :=
  inferInstanceAs (Decidable (_ ∧ _))

theorem IAliasPVD.convertible_transTCP : Convertible .transTCP := by decide

theorem IAliasPVD.convertible_transUDP : Convertible .transUDP := by decide

theorem IAliasPVD.convertible_transUdsTCP : Convertible .transUdsTCP := by decide

theorem IAliasPVD.convertible_transUdsUDP : Convertible .transUdsUDP := by decide

/-- `IAlias`, with the type of `IAliasPVD`. The constructors convert it from a name. -/
structure IAliasPVD where
  pathParent : Bytes
  name : Bytes
  type : ProviderType
  convertible : IAliasPVD.Convertible type

namespace IAliasPVD

/-- The character `/`. -/
def slash : UInt8 := 0x2F

/-- `IAlias::make_full_path`. -/
def makeFullPath (appPath pvdPath : Bytes) : Bytes :=
  if appPath ≠ [] then appPath ++ slash :: pvdPath else pvdPath

/-- `IAlias::path`. -/
def path (pvd : IAliasPVD) : Bytes := makeFullPath pvd.pathParent pvd.name

/-- `IAlias::update`. -/
def update (pvd : IAliasPVD) (parent name : Bytes) : IAliasPVD :=
  { pvd with pathParent := parent, name := name }

/-- `decompose_full_path`: what stands before and behind the last `/`. -/
def decomposeFullPath : (fullPath : Bytes) → Option (Bytes × Bytes)
  | [] => none
  | c :: rest =>
      match decomposeFullPath rest with
      | some (app, pvd) => some (c :: app, pvd)
      | none => if c = slash then some ([], rest) else none

theorem decomposeFullPath_eq_some {fullPath app pvd : Bytes}
    (h : decomposeFullPath fullPath = some (app, pvd)) : fullPath = app ++ slash :: pvd := by
  induction fullPath generalizing app with
  | nil => cases h
  | cons c rest ih =>
      rw [decomposeFullPath] at h
      split at h
      · next app' pvd' hrest =>
          obtain ⟨rfl, rfl⟩ : c :: app' = app ∧ pvd' = pvd := by simpa using h
          rw [ih hrest, List.cons_append]
      · split at h
        · next hslash =>
            obtain ⟨rfl, rfl⟩ : [] = app ∧ rest = pvd := by simpa using h
            rw [hslash, List.nil_append]
        · cases h

/-- The parts of a path make it up again, unless its only `/` is in front. -/
theorem makeFullPath_of_decompose {fullPath app pvd : Bytes}
    (h : decomposeFullPath fullPath = some (app, pvd)) (happ : app ≠ []) :
    makeFullPath app pvd = fullPath := by
  rw [makeFullPath, if_pos happ, decomposeFullPath_eq_some h]

end IAliasPVD

/-- A reference to an alias object. -/
abbrev AliasRef := Nat

/-- The alias objects made so far. -/
structure AliasHeap where
  objects : AliasRef → IAliasPVD
  nextRef : AliasRef

namespace AliasHeap

/-- `std::make_shared` of an alias, whose reference is the old `nextRef`. -/
def make (heap : AliasHeap) (pvd : IAliasPVD) : AliasHeap :=
  { objects := Function.update heap.objects heap.nextRef pvd, nextRef := heap.nextRef + 1 }

/-- `IAlias::update` through a reference. -/
def update (heap : AliasHeap) (ref : AliasRef) (parent name : Bytes) : AliasHeap :=
  { heap with objects := Function.update heap.objects ref ((heap.objects ref).update parent name) }

/-- The full path of an alias object. -/
def path (heap : AliasHeap) (ref : AliasRef) : Bytes := (heap.objects ref).path

@[simp] theorem make_objects_nextRef (heap : AliasHeap) (pvd : IAliasPVD) :
    (heap.make pvd).objects heap.nextRef = pvd := Function.update_self ..

theorem make_objects_of_lt {heap : AliasHeap} {ref : AliasRef} (pvd : IAliasPVD)
    (h : ref < heap.nextRef) : (heap.make pvd).objects ref = heap.objects ref :=
  Function.update_of_ne (Nat.ne_of_lt h) ..

@[simp] theorem update_path_self (heap : AliasHeap) (ref : AliasRef) (parent name : Bytes) :
    (heap.update ref parent name).path ref = IAliasPVD.makeFullPath parent name := by
  simp [path, update, IAliasPVD.update, IAliasPVD.path]

/-- An update with the names that the object has changes nothing. -/
theorem update_self (heap : AliasHeap) (ref : AliasRef) :
    heap.update ref (heap.objects ref).pathParent (heap.objects ref).name = heap := by
  simp [update, IAliasPVD.update]

end AliasHeap

end CommonCommunicator
