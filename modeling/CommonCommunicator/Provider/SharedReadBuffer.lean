import CommonCommunicator.Lib.GuardedRun
import CommonCommunicator.Provider.TcpRead

/-!
# One read buffer for many receivers

A TCP provider owns one read buffer, and a receiver thread for each connection
runs `read_msg` on it without a lock. Between the `read` of a receiver and its
`append_msg` any other receiver may read. A message is put together from its own
connection as long as no read changes bytes that another receiver has still to
append.
-/

namespace CommonCommunicator

open Lib

/-- Where a receiver stands in `read_msg`. The last component of the middle three lists the chunks
that `read` has delivered to this call. -/
inductive ReadPhase
  | outside
  | reading (msg : CRawMessage) (chunks : List Bytes)
  | appending (msg : CRawMessage) (msgSize : Nat) (chunks : List Bytes)
  | returned (msg : CRawMessage) (chunks : List Bytes)
  | failed (fault : Fault)

/-- What a receiver has made of its chunks, given the read buffer. -/
def ReadPhase.Faithful (readBuf : Bytes) : ReadPhase → Prop
  | .outside => True
  | .reading msg chunks => msg.Holds chunks.flatten
  | .appending msg msgSize chunks => ∃ before chunk, chunks = before ++ [chunk] ∧
      msg.Holds before.flatten ∧ chunk ≠ [] ∧ msgSize = chunk.length ∧
        readBuf.take msgSize = chunk
  | .returned msg chunks => msg.Holds chunks.flatten
  | .failed _ => True

/-- Only the bytes that are still to be appended matter. -/
theorem ReadPhase.Faithful.of_take {readBuf readBuf' : Bytes} {phase : ReadPhase}
    (h : phase.Faithful readBuf)
    (htake : ∀ msg msgSize chunks, phase = .appending msg msgSize chunks →
      readBuf'.take msgSize = readBuf.take msgSize) : phase.Faithful readBuf' := by
  cases phase with
  | outside => exact h
  | reading msg chunks => exact h
  | appending msg msgSize chunks =>
      obtain ⟨before, chunk, hchunks, hmsg, hne, hsize, hread⟩ := h
      exact ⟨before, chunk, hchunks, hmsg, hne, hsize, (htake msg msgSize chunks rfl).trans hread⟩
  | returned msg chunks => exact h
  | failed fault => exact h

/-- The read buffer and the receivers of a provider, one for each descriptor. -/
structure SharedReceive (Fd : Type) where
  readBuf : Bytes
  receivers : Fd → ReadPhase

namespace SharedReceive

variable {Fd : Type} [DecidableEq Fd]

/-- No receiver has called `read_msg` yet. -/
def initial (Fd : Type) (readBuf : Bytes) : SharedReceive Fd :=
  { readBuf := readBuf, receivers := fun _ => .outside }

def setPhase (s : SharedReceive Fd) (fd : Fd) (phase : ReadPhase) : SharedReceive Fd :=
  { s with receivers := Function.update s.receivers fd phase }

@[simp] theorem setPhase_readBuf (s : SharedReceive Fd) (fd : Fd) (phase : ReadPhase) :
    (s.setPhase fd phase).readBuf = s.readBuf := rfl

@[simp] theorem setPhase_self (s : SharedReceive Fd) (fd : Fd) (phase : ReadPhase) :
    (s.setPhase fd phase).receivers fd = phase := Function.update_self ..

@[simp] theorem setPhase_of_ne {s : SharedReceive Fd} {fd fd' : Fd} (phase : ReadPhase)
    (h : fd' ≠ fd) : (s.setPhase fd phase).receivers fd' = s.receivers fd' :=
  Function.update_of_ne h ..

@[simp] theorem setPhase_setPhase (s : SharedReceive Fd) (fd : Fd) (phase phase' : ReadPhase) :
    (s.setPhase fd phase).setPhase fd phase' = s.setPhase fd phase' := by
  simp [setPhase]

/-- The steps of the receivers: a call of `read_msg`, its `read` and its `append_msg`. -/
inductive Action (Fd : Type)
  | call (fd : Fd)
  | read (fd : Fd) (result : ReadResult)
  | append (fd : Fd)

/-- The receiver that makes the step. -/
def Action.fd : Action Fd → Fd
  | .call fd => fd
  | .read fd _ => fd
  | .append fd => fd

/-- `read` into the shared buffer. -/
def read (s : SharedReceive Fd) (fd : Fd) (msg : CRawMessage) (chunks : List Bytes) :
    ReadResult → SharedReceive Fd
  | .failed => s.setPhase fd (.failed (.thrown .rangeError))
  | .received chunk =>
      let s := { s with readBuf := overwrite s.readBuf 0 chunk }
      if TcpRead.readBufsize < chunk.length then s.setPhase fd (.failed (.thrown .rangeError))
      else if chunk.length = 0 then s.setPhase fd (.returned msg chunks)
      else s.setPhase fd (.appending msg chunk.length (chunks ++ [chunk]))

/-- `append_msg` from the shared buffer; the loop goes on after a full read only. -/
def append (s : SharedReceive Fd) (fd : Fd) (msg : CRawMessage) (msgSize : Nat)
    (chunks : List Bytes) : SharedReceive Fd :=
  match TcpRead.appendChunk msg s.readBuf msgSize with
  | .error f => s.setPhase fd (.failed f)
  | .ok msg =>
      if msgSize = TcpRead.readBufsize then s.setPhase fd (.reading msg chunks)
      else s.setPhase fd (.returned msg chunks)

/-- One step of a receiver that is where the step begins. -/
def next (s : SharedReceive Fd) : Action Fd → Option (SharedReceive Fd)
  | .call fd =>
      match s.receivers fd with
      | .outside | .returned _ _ => some (s.setPhase fd (.reading CRawMessage.init []))
      | _ => none
  | .read fd result =>
      match s.receivers fd with
      | .reading msg chunks => some (s.read fd msg chunks result)
      | _ => none
  | .append fd =>
      match s.receivers fd with
      | .appending msg msgSize chunks => some (s.append fd msg msgSize chunks)
      | _ => none

/-- The steps as a relation. -/
def Step (s : SharedReceive Fd) (a : Action Fd) (s' : SharedReceive Fd) : Prop :=
  next s a = some s'

/-- A read that delivers bytes leaves them to be appended. -/
theorem read_received {s : SharedReceive Fd} {fd : Fd} {msg : CRawMessage}
    {chunks : List Bytes} {chunk : Bytes} (hfits : ¬TcpRead.readBufsize < chunk.length)
    (hne : ¬chunk.length = 0) :
    s.read fd msg chunks (.received chunk) =
      setPhase { s with readBuf := overwrite s.readBuf 0 chunk } fd
        (.appending msg chunk.length (chunks ++ [chunk])) := by
  simp only [read, if_neg hfits, if_neg hne]

theorem append_ok {s : SharedReceive Fd} {fd : Fd} {msg msg' : CRawMessage} {msgSize : Nat}
    (chunks : List Bytes) (happend : TcpRead.appendChunk msg s.readBuf msgSize = .ok msg') :
    s.append fd msg msgSize chunks =
      s.setPhase fd (if msgSize = TcpRead.readBufsize then .reading msg' chunks
        else .returned msg' chunks) := by
  simp only [append, happend]
  split <;> rfl

/-- A read and its append make one round of the loop of `read_msg`. -/
theorem execute_round {s : SharedReceive Fd} {fd : Fd} {msg msg' : CRawMessage}
    {chunks : List Bytes} {chunk : Bytes} (hphase : s.receivers fd = .reading msg chunks)
    (hfits : ¬TcpRead.readBufsize < chunk.length) (hne : ¬chunk.length = 0)
    (happend : TcpRead.appendChunk msg (overwrite s.readBuf 0 chunk) chunk.length = .ok msg') :
    execute next s [.read fd (.received chunk), .append fd] =
      some (setPhase { s with readBuf := overwrite s.readBuf 0 chunk } fd
        (if chunk.length = TcpRead.readBufsize then .reading msg' (chunks ++ [chunk])
          else .returned msg' (chunks ++ [chunk]))) := by
  let pending := setPhase { s with readBuf := overwrite s.readBuf 0 chunk } fd
    (.appending msg chunk.length (chunks ++ [chunk]))
  have hread : next s (.read fd (.received chunk)) = some pending := by
    simp only [next, hphase, read_received hfits hne, pending]
  have happended : next pending (.append fd) =
      some (pending.append fd msg chunk.length (chunks ++ [chunk])) := by
    simp only [next, pending, setPhase_self]
  have happend' : TcpRead.appendChunk msg pending.readBuf chunk.length = .ok msg' := happend
  simp only [execute, hread, happended, append_ok _ happend', pending, setPhase_setPhase]

/-- A receiver that nobody disturbs returns what the loop of `read_msg` computes. -/
theorem readLoop_steps {fd : Fd} {msg msg' : CRawMessage} {results rest : List ReadResult}
    {readBuf' : Bytes} {s : SharedReceive Fd} {chunks : List Bytes}
    (hphase : s.receivers fd = .reading msg chunks)
    (hloop : TcpRead.readLoop msg s.readBuf results = (.ok msg', rest, readBuf')) :
    ∃ labels s', execute next s labels = some s' ∧ (∀ a ∈ labels, a.fd = fd) ∧
      s'.readBuf = readBuf' ∧ ∃ chunks', s'.receivers fd = .returned msg' chunks' := by
  induction results generalizing s msg chunks with
  | nil =>
      obtain ⟨rfl, -, rfl⟩ : msg = msg' ∧ _ ∧ s.readBuf = readBuf' := by
        simpa [TcpRead.readLoop] using hloop
      refine ⟨[.read fd (.received [])], s.read fd msg chunks (.received []),
        by simp only [execute, next, hphase], by simp [Action.fd], ?_, chunks, ?_⟩
      · simp [read, overwrite]
      · simp [read]
  | cons result results ih =>
      cases result with
      | failed => simp [TcpRead.readLoop, throwThat] at hloop
      | received chunk =>
          rw [TcpRead.readLoop] at hloop
          split at hloop
          · simp [throwThat] at hloop
          · next hfits =>
              split at hloop
              · next hzero =>
                  obtain ⟨rfl, -, rfl⟩ :
                      msg = msg' ∧ _ ∧ overwrite s.readBuf 0 chunk = readBuf' := by
                    simpa using hloop
                  refine ⟨[.read fd (.received chunk)], s.read fd msg chunks (.received chunk),
                    by simp only [execute, next, hphase], by simp [Action.fd], ?_, chunks, ?_⟩
                  · simp [read, hzero]
                  · simp [read, hzero]
              · next hne =>
                  split at hloop
                  · cases hloop
                  · next msg₁ happend =>
                      have hround := execute_round hphase hfits hne happend
                      split at hloop
                      · next hfull =>
                          rw [if_pos hfull] at hround
                          have hphase' := setPhase_self
                            { s with readBuf := overwrite s.readBuf 0 chunk } fd
                            (.reading msg₁ (chunks ++ [chunk]))
                          obtain ⟨labels, s', hrun, hown, hbuf, hdone⟩ := ih hphase' hloop
                          exact ⟨.read fd (.received chunk) :: .append fd :: labels, s',
                            (execute_append labels hround).trans hrun,
                            by simpa [Action.fd] using hown, hbuf, hdone⟩
                      · next hshort =>
                          rw [if_neg hshort] at hround
                          obtain ⟨rfl, -, rfl⟩ :
                              msg₁ = msg' ∧ _ ∧ overwrite s.readBuf 0 chunk = readBuf' := by
                            simpa using hloop
                          exact ⟨_, _, hround, by simp [Action.fd], rfl, _, setPhase_self ..⟩

/-- A read that changes no byte which another receiver has read and has still to append. -/
def LeavesPending (s : SharedReceive Fd) : Action Fd → Prop
  | .read fd (.received chunk) => ∀ fd', fd' ≠ fd → ∀ msg msgSize chunks,
      s.receivers fd' = .appending msg msgSize chunks →
        (overwrite s.readBuf 0 chunk).take msgSize = s.readBuf.take msgSize
  | _ => True

/-- Every message is so far put together from the chunks of its own connection. -/
def Separate (s : SharedReceive Fd) : Prop := ∀ fd, (s.receivers fd).Faithful s.readBuf

theorem Separate.setPhase {s : SharedReceive Fd} {fd : Fd} {phase : ReadPhase}
    (hothers : ∀ fd', fd' ≠ fd → (s.receivers fd').Faithful s.readBuf)
    (hphase : phase.Faithful s.readBuf) : (s.setPhase fd phase).Separate := by
  intro fd'
  by_cases hfd : fd' = fd
  · subst hfd
    simpa using hphase
  · simpa [hfd] using hothers fd' hfd

/-- A read keeps the connections apart if it leaves the bytes that others have still to append. -/
theorem Separate.read {s : SharedReceive Fd} (h : s.Separate) {fd : Fd} {msg : CRawMessage}
    {chunks : List Bytes} (hmsg : msg.Holds chunks.flatten) (result : ReadResult)
    (hkept : s.LeavesPending (.read fd result)) : (s.read fd msg chunks result).Separate := by
  cases result with
  | failed => exact setPhase (fun fd' _ => h fd') trivial
  | received chunk =>
      have hothers : ∀ fd', fd' ≠ fd →
          (s.receivers fd').Faithful (overwrite s.readBuf 0 chunk) := by
        intro fd' hfd
        exact (h fd').of_take fun msg' msgSize chunks' hphase =>
          hkept fd' hfd msg' msgSize chunks' hphase
      rw [SharedReceive.read]
      split
      · exact setPhase hothers trivial
      · split
        · exact setPhase hothers hmsg
        · next hne =>
            apply setPhase hothers
            refine ⟨chunks, chunk, rfl, hmsg, ?_, rfl, take_overwrite_zero s.readBuf chunk⟩
            exact fun hnil => hne (by rw [hnil, List.length_nil])

/-- Appending from the buffer appends the chunk that this receiver has read. -/
theorem Separate.append {s : SharedReceive Fd} (h : s.Separate) {fd : Fd} {msg : CRawMessage}
    {msgSize : Nat} {chunks : List Bytes}
    (hphase : s.receivers fd = .appending msg msgSize chunks) :
    (s.append fd msg msgSize chunks).Separate := by
  have hfaithful := h fd
  rw [hphase] at hfaithful
  obtain ⟨before, chunk, rfl, hmsg, hne, rfl, htake⟩ := hfaithful
  obtain ⟨msg', happend, hmsg'⟩ := TcpRead.appendChunk_of_take hmsg hne htake
  have hflatten : (before ++ [chunk]).flatten = before.flatten ++ chunk := by simp
  rw [append_ok _ happend]
  split
  · exact setPhase (fun fd' _ => h fd') (by rw [ReadPhase.Faithful, hflatten]; exact hmsg')
  · exact setPhase (fun fd' _ => h fd') (by rw [ReadPhase.Faithful, hflatten]; exact hmsg')

/-- Every step that leaves the pending bytes of others keeps the connections apart. -/
theorem Separate.next {s s' : SharedReceive Fd} {a : Action Fd} (h : s.Separate)
    (hkept : s.LeavesPending a) (hstep : Step s a s') : s'.Separate := by
  cases a with
  | call fd =>
      rw [Step, SharedReceive.next] at hstep
      split at hstep
      all_goals cases hstep
      all_goals exact setPhase (fun fd' _ => h fd') (CRawMessage.init_holds CRawMessage.defCapSize)
  | read fd result =>
      rw [Step, SharedReceive.next] at hstep
      split at hstep
      · next msg chunks hphase =>
          cases hstep
          have hmsg := h fd
          rw [hphase] at hmsg
          exact h.read hmsg result hkept
      · cases hstep
  | append fd =>
      rw [Step, SharedReceive.next] at hstep
      split at hstep
      · next msg msgSize chunks hphase =>
          cases hstep
          exact h.append hphase
      · cases hstep

/-- If no read changes bytes that another receiver has still to append, `read_msg` returns exactly
the chunks that `read` delivered for its own descriptor. -/
theorem returned_eq_chunks {readBuf : Bytes} {s : SharedReceive Fd}
    (run : GuardedRun Step LeavesPending (initial Fd readBuf) s) {fd : Fd} {msg : CRawMessage}
    {chunks : List Bytes} (hreturned : s.receivers fd = .returned msg chunks) :
    msg.content = chunks.flatten := by
  have hseparate : s.Separate := by
    apply run.invariant (fun _ => trivial)
    intro s a s' h hkept hstep
    exact h.next hkept hstep
  have hfaithful := hseparate fd
  rw [hreturned] at hfaithful
  exact CRawMessage.Holds.content_eq hfaithful

/-- What `read_msg` has returned to a receiver, and the chunks it was read from. -/
def returned? (s : SharedReceive Fd) (fd : Fd) : Option (Bytes × List Bytes) :=
  match s.receivers fd with
  | .returned msg chunks => some (msg.content, chunks)
  | _ => none

omit [DecidableEq Fd] in
theorem of_returned? {s : SharedReceive Fd} {fd : Fd} {content : Bytes} {chunks : List Bytes}
    (h : s.returned? fd = some (content, chunks)) :
    ∃ msg, s.receivers fd = .returned msg chunks ∧ msg.content = content := by
  rw [returned?] at h
  split at h
  · next msg chunks' hphase =>
      obtain ⟨rfl, rfl⟩ : msg.content = content ∧ chunks' = chunks := by simpa using h
      exact ⟨msg, hphase, rfl⟩
  · cases h

/-- Two receivers call `read_msg`. The second one reads before the first one has appended, and its
chunk begins with the byte that is pending. -/
def undisturbed : List (Action Nat) :=
  [.call 4, .call 5, .read 4 (.received [0x41]), .read 5 (.received [0x41, 0x43]), .append 4,
    .append 5]

theorem undisturbed_returned :
    ∃ s msg msg', execute next (initial Nat []) undisturbed = some s ∧
      s.receivers 4 = .returned msg [[0x41]] ∧ msg.content = [0x41] ∧
      s.receivers 5 = .returned msg' [[0x41, 0x43]] ∧ msg'.content = [0x41, 0x43] := by
  have hfirst : (execute next (initial Nat []) undisturbed).bind (returned? · 4) =
      some ([0x41], [[0x41]]) := by decide +kernel
  have hsecond : (execute next (initial Nat []) undisturbed).bind (returned? · 5) =
      some ([0x41, 0x43], [[0x41, 0x43]]) := by decide +kernel
  obtain ⟨s, hs, hfirst⟩ := Option.bind_eq_some_iff.mp hfirst
  rw [hs, Option.bind_some] at hsecond
  obtain ⟨msg, hreturned, -⟩ := of_returned? hfirst
  obtain ⟨msg', hreturned', -⟩ := of_returned? hsecond
  have hmeets : Meets next LeavesPending (initial Nat []) undisturbed := by
    refine ⟨trivial, trivial, ?_, ?_, ?_⟩
    · intro fd hfd msg msgSize chunks hphase
      by_cases hother : fd = 5
      · subst hother
        cases hphase
      · simp [setPhase, initial, hfd, hother] at hphase
    · intro fd hfd msg msgSize chunks hphase
      by_cases hother : fd = 4
      · subst hother
        cases hphase
        rfl
      · simp [SharedReceive.read, TcpRead.readBufsize, setPhase, initial, hfd, hother] at hphase
    · split
      · trivial
      · refine ⟨trivial, ?_⟩
        split
        · trivial
        · exact ⟨trivial, by split <;> trivial⟩
  have hrun := GuardedRun.execute .start hs hmeets
  exact ⟨s, msg, msg', hs, hreturned, returned_eq_chunks hrun hreturned, hreturned',
    returned_eq_chunks hrun hreturned'⟩

/-- The second receiver reads before the first one has appended. -/
def readBetween : List (Action Nat) :=
  [.call 4, .call 5, .read 4 (.received [0x41]), .read 5 (.received [0x42]), .append 4]

/-- The first receiver returns a byte of the other connection and loses its own. -/
theorem readBetween_mixes :
    ∃ s msg, execute next (initial Nat []) readBetween = some s ∧
      Reachable Step (initial Nat []) s ∧ s.receivers 4 = .returned msg [[0x41]] ∧
      msg.content = [0x42] := by
  have hresult : (execute next (initial Nat []) readBetween).bind (returned? · 4) =
      some ([0x42], [[0x41]]) := by decide +kernel
  obtain ⟨s, hs, hresult⟩ := Option.bind_eq_some_iff.mp hresult
  obtain ⟨msg, hreturned, hcontent⟩ := of_returned? hresult
  exact ⟨s, msg, hs, reachable_of_execute hs, hreturned, hcontent⟩

end SharedReceive

end CommonCommunicator
