import CommonCommunicator.Provider.TcpRun

/-!
# Names of a sender

A communicator checks its application and its provider name once, when it is
made. `write_payload` joins the two to the path that travels with a message, and
the rename function of the receiving provider splits that path at its last `/`.
-/

namespace CommonCommunicator

namespace IAliasPVD

/-- Only a path without `/` cannot be split. -/
theorem decomposeFullPath_eq_none_iff {fullPath : Bytes} :
    decomposeFullPath fullPath = none ↔ slash ∉ fullPath := by
  induction fullPath with
  | nil => simp [decomposeFullPath]
  | cons c rest ih =>
      rw [decomposeFullPath, List.mem_cons, not_or, ← ih]
      cases hrest : decomposeFullPath rest with
      | some parts => simp
      | none =>
          by_cases hc : c = slash
          · simp [hc]
          · simp [hc, Ne.symm hc]

/-- Behind the last `/` there is no other. -/
theorem slash_notMem_of_decompose {fullPath app pvd : Bytes}
    (h : decomposeFullPath fullPath = some (app, pvd)) : slash ∉ pvd := by
  induction fullPath generalizing app with
  | nil => cases h
  | cons c rest ih =>
      rw [decomposeFullPath] at h
      split at h
      · next hrest =>
          cases h
          exact ih hrest
      · next hrest =>
          split at h
          · cases h
            exact decomposeFullPath_eq_none_iff.mp hrest
          · cases h

/-- A path that is joined from two parts is split into them exactly if the second has no `/`. -/
theorem decomposeFullPath_append_iff (app pvd : Bytes) :
    decomposeFullPath (app ++ slash :: pvd) = some (app, pvd) ↔ slash ∉ pvd := by
  constructor
  · exact slash_notMem_of_decompose
  · intro hpvd
    induction app with
    | nil =>
        rw [List.nil_append, decomposeFullPath, decomposeFullPath_eq_none_iff.mpr hpvd]
        exact if_pos rfl
    | cons c app ih => rw [List.cons_append, decomposeFullPath, ih]

end IAliasPVD

namespace ICommunicatorImpl

/-- The members of a communicator that `validation_check` looks at. -/
structure Identity where
  providerType : ProviderType
  mode : ProviderMode
  appId : Bytes
  providerId : Bytes
  deriving DecidableEq, Repr

/-- `validation_check`. -/
def validationCheck (self : Identity) : Outcome Unit :=
  if self.providerType = .notDefine then throwThat .invalidArgument
  else if self.mode = .none then throwThat .invalidArgument
  else if self.appId = [] then throwThat .invalidArgument
  else if self.providerId = [] then throwThat .invalidArgument
  else return ()

/-- The path of the sender, as `write_payload` makes it. -/
def fromFullPath (self : Identity) : Bytes := IAliasPVD.makeFullPath self.appId self.providerId

/-- A receiver that knows the sender by another path renames it to the sender's own names. -/
def Renamed (self : Identity) : Prop :=
  ∀ peerFullPath, peerFullPath ≠ fromFullPath self →
    TcpProvider.renameTarget peerFullPath (fromFullPath self) =
      some (self.appId, self.providerId)

/-- The names of two senders survive the wire: each of them is recovered from its path, and two
different ones do not share a path. -/
structure NamesSurvive (sender other : Identity) : Prop where
  renamed : Renamed sender
  otherRenamed : Renamed other
  apart : (sender.appId, sender.providerId) ≠ (other.appId, other.providerId) →
    fromFullPath sender ≠ fromFullPath other

variable {self other : Identity}

theorem validationCheck_eq_ok : validationCheck self = .ok () ↔
    self.providerType ≠ .notDefine ∧ self.mode ≠ .none ∧ self.appId ≠ [] ∧
      self.providerId ≠ [] := by
  rw [validationCheck]
  split_ifs <;> simp_all [throwThat]

theorem fromFullPath_of_valid (hvalid : validationCheck self = .ok ()) :
    fromFullPath self = self.appId ++ IAliasPVD.slash :: self.providerId :=
  if_pos (validationCheck_eq_ok.mp hvalid).2.2.1

/-- A receiver finds the names of a valid sender exactly if its provider name has no `/`. -/
theorem renamed_iff (hvalid : validationCheck self = .ok ()) :
    Renamed self ↔ IAliasPVD.slash ∉ self.providerId := by
  have hpath := fromFullPath_of_valid hvalid
  rw [← IAliasPVD.decomposeFullPath_append_iff self.appId, ← hpath]
  have htarget : ∀ peerFullPath, peerFullPath ≠ fromFullPath self →
      TcpProvider.renameTarget peerFullPath (fromFullPath self) =
        IAliasPVD.decomposeFullPath (fromFullPath self) := by
    intro peerFullPath hother
    apply if_neg
    rw [not_or, hpath]
    exact ⟨by simp, hpath ▸ hother⟩
  constructor
  · intro hrenamed
    have hother : ([] : Bytes) ≠ fromFullPath self := by simp [hpath]
    rw [← htarget [] hother]
    exact hrenamed [] hother
  · intro hsplit peerFullPath hother
    rw [htarget peerFullPath hother]
    exact hsplit

/-- The names of two valid senders survive the wire exactly if neither provider name has a `/`. -/
theorem namesSurvive_iff (hvalid : validationCheck self = .ok ())
    (hother : validationCheck other = .ok ()) :
    NamesSurvive self other ↔
      IAliasPVD.slash ∉ self.providerId ∧ IAliasPVD.slash ∉ other.providerId := by
  constructor
  · intro hsurvive
    exact ⟨(renamed_iff hvalid).mp hsurvive.renamed,
      (renamed_iff hother).mp hsurvive.otherRenamed⟩
  · rintro ⟨hslash, hslash'⟩
    refine ⟨(renamed_iff hvalid).mpr hslash, (renamed_iff hother).mpr hslash', ?_⟩
    intro hdifferent hshared
    have hsplit := (IAliasPVD.decomposeFullPath_append_iff self.appId _).mpr hslash
    have hsplit' := (IAliasPVD.decomposeFullPath_append_iff other.appId _).mpr hslash'
    rw [← fromFullPath_of_valid hvalid] at hsplit
    rw [← fromFullPath_of_valid hother, ← hshared, hsplit] at hsplit'
    exact hdifferent (Option.some.inj hsplit')

/-- The provider `c` of the application `a/b`. -/
def nested : Identity :=
  { providerType := .transTCP
    mode := .both
    appId := [0x61, 0x2F, 0x62]
    providerId := [0x63] }

/-- The provider `b/c` of the application `a`. -/
def slashed : Identity := { nested with appId := [0x61], providerId := [0x62, 0x2F, 0x63] }

/-- The provider `d` of the application `a/b` and its provider `c` stay apart. -/
theorem siblings_namesSurvive : NamesSurvive nested { nested with providerId := [0x64] } :=
  (namesSurvive_iff rfl rfl).mpr (by decide)

/-- `a/b`, `c` and `a`, `b/c` are both valid and have one path. -/
theorem slashed_names_lost :
    ¬∀ self other, validationCheck self = .ok () → validationCheck other = .ok () →
      NamesSurvive self other := by
  intro hall
  have hsurvive := hall nested slashed rfl rfl
  exact hsurvive.apart (by decide) rfl

end ICommunicatorImpl

end CommonCommunicator
