import CommonCommunicator.Protocol.MessageJob

/-!
# Malformed buffers and the receive worker

A malformed buffer should cost nothing but itself: the callbacks of a queue are
those of the queue without its malformed buffers, and the worker goes on behind
each of them. The receive job asserts that unpacking succeeded, so the first
buffer that does not decode ends the process. The worker is therefore not
touched by malformed buffers exactly when all of them come behind a buffer that
ends it anyway, a well-formed bare command header.
-/

namespace CommonCommunicator

/-- The header is incomplete, the declared payload does not lie behind it, or the declared
payload is empty. -/
def FixedHeader.Malformed (order : ByteOrder) (b : Bytes) : Prop :=
  b.length < size ∨ b.length < size + payloadLength order b ∨ payloadLength order b = 0

instance (order : ByteOrder) (b : Bytes) : Decidable (FixedHeader.Malformed order b) :=
  inferInstanceAs (Decidable (_ ∨ _ ∨ _))

namespace ShippedCodec

/-- Buffers that no sender's codec produces. -/
def Malformed : ShippedCodec → Bytes → Prop
  | bigEndian, b => FixedHeader.Malformed .big b
  | littleEndian, b => FixedHeader.Malformed .little b
  | universalCMD, b => ¬UniversalCmd.WellFormed b

instance : (codec : ShippedCodec) → (b : Bytes) → Decidable (codec.Malformed b)
  | bigEndian, b => inferInstanceAs (Decidable (FixedHeader.Malformed .big b))
  | littleEndian, b => inferInstanceAs (Decidable (FixedHeader.Malformed .little b))
  | universalCMD, b => inferInstanceAs (Decidable (¬UniversalCmd.WellFormed b))

/-- A command frame that is its header and nothing else. -/
def BareHeader (codec : ShippedCodec) (b : Bytes) : Prop :=
  codec = universalCMD ∧ UniversalCmd.WellFormed b ∧ b.length = UniversalHeader.size

theorem decodeOne_bareHeader {codec : ShippedCodec} {b : Bytes} (h : codec.BareHeader b) :
    codec.decodeOne b = none := by
  obtain ⟨rfl, -, hlen⟩ := h
  rw [decodeOne_universal, UniversalCmd.unpack_of_short _ _ _ hlen.le]

private theorem accepts_of_not_malformed {order : ByteOrder} {b : Bytes}
    (h : ¬FixedHeader.Malformed order b) : FixedHeader.Accepts order b b.length := by
  rw [FixedHeader.Malformed] at h
  rw [FixedHeader.Accepts]
  omega

/-- Well-formed buffers decode, bare command headers apart. -/
theorem decodeOne_of_wellFormed {codec : ShippedCodec} {b : Bytes} (hwf : ¬codec.Malformed b)
    (hbare : ¬codec.BareHeader b) : codec.decodeOne b ≠ none := by
  cases codec with
  | bigEndian =>
      rw [decodeOne_fixed rfl, if_pos (accepts_of_not_malformed hwf)]
      simp
  | littleEndian =>
      rw [decodeOne_fixed rfl, if_pos (accepts_of_not_malformed hwf)]
      simp
  | universalCMD =>
      have hframe : UniversalCmd.WellFormed b := not_not.mp hwf
      have hlong : UniversalHeader.size < b.length :=
        lt_of_le_of_ne hframe.complete fun hlen => hbare ⟨rfl, hframe, hlen.symm⟩
      obtain ⟨cmd, payload, hunpack, -⟩ := UniversalCmd.unpack_of_wellFormed
        UniversalCmd.cleared (CRawMessage.init_holds CRawMessage.defCapSize) hframe
        hlong [0]
      rw [decodeOne_universal, hunpack]
      simp

/-- The queue without its malformed buffers. -/
def wellFormedPart (codec : ShippedCodec) (queue : List CRawMessage) : List CRawMessage :=
  queue.filter fun msgRaw => ¬codec.Malformed msgRaw.content

/-- The malformed buffers of a queue change nothing about the callbacks, and the worker that
reaches one of them survives it. -/
structure IsolatesMalformed (codec : ShippedCodec) (config : CConfigProtocols ShippedHead)
    (updater : Bool) (queue : List CRawMessage) : Prop where
  callbacks : JobEvent.callbacks (runRoutin config updater queue).1 =
    JobEvent.callbacks (runRoutin config updater (codec.wellFormedPart queue)).1
  survives : ∀ pre msgRaw post, queue = pre ++ msgRaw :: post →
    codec.Malformed msgRaw.content →
    (∃ config', (runRoutin config updater pre).2 = .ok config') →
    ∃ config', (runRoutin config updater (pre ++ [msgRaw])).2 = .ok config'

/-- Every malformed buffer of the queue comes behind a well-formed bare command header. -/
def MalformedBehindBareHeader (codec : ShippedCodec) (queue : List CRawMessage) : Prop :=
  ∀ pre msgRaw post, queue = pre ++ msgRaw :: post → codec.Malformed msgRaw.content →
    ∃ earlier ∈ pre, codec.BareHeader earlier.content

/-- Whether a queue element decodes. -/
private def Decodes (codec : ShippedCodec) (msgRaw : CRawMessage) : Prop :=
  codec.decodeOne msgRaw.content ≠ none

private theorem deliveries_append {codec : ShippedCodec} {pre rest : List CRawMessage}
    (h : ∀ m ∈ pre, codec.Decodes m) :
    codec.deliveries (pre ++ rest) = codec.deliveries pre ++ codec.deliveries rest := by
  induction pre with
  | nil => rfl
  | cons m pre ih =>
      obtain ⟨hm, hpre⟩ := List.forall_mem_cons.mp h
      obtain ⟨decoded, hdecoded⟩ := Option.ne_none_iff_exists'.mp hm
      simp [deliveries, hdecoded, ih hpre]

private theorem length_deliveries {codec : ShippedCodec} {queue : List CRawMessage}
    (h : ∀ m ∈ queue, codec.Decodes m) : (codec.deliveries queue).length = queue.length := by
  induction queue with
  | nil => rfl
  | cons m queue ih =>
      obtain ⟨hm, hqueue⟩ := List.forall_mem_cons.mp h
      obtain ⟨decoded, hdecoded⟩ := Option.ne_none_iff_exists'.mp hm
      simp [deliveries, hdecoded, ih hqueue]

private theorem deliveries_of_fails {codec : ShippedCodec} {m : CRawMessage}
    {rest : List CRawMessage} (h : ¬codec.Decodes m) : codec.deliveries (m :: rest) = [] := by
  rw [deliveries, not_not.mp h]

/-- Either everything decodes, or the queue splits at the first buffer that does not. -/
private theorem first_failing (codec : ShippedCodec) (queue : List CRawMessage) :
    (∀ m ∈ queue, codec.Decodes m) ∨ ∃ pre m post, queue = pre ++ m :: post ∧
      (∀ x ∈ pre, codec.Decodes x) ∧ ¬codec.Decodes m := by
  induction queue with
  | nil => exact Or.inl (by simp)
  | cons m queue ih =>
      by_cases hm : codec.Decodes m
      · rcases ih with hall | ⟨pre, x, post, rfl, hpre, hx⟩
        · exact Or.inl (List.forall_mem_cons.mpr ⟨hm, hall⟩)
        · exact Or.inr ⟨m :: pre, x, post, rfl, List.forall_mem_cons.mpr ⟨hm, hpre⟩, hx⟩
      · exact Or.inr ⟨[], m, queue, rfl, by simp, hm⟩

private theorem wellFormedPart_append (codec : ShippedCodec) (a b : List CRawMessage) :
    codec.wellFormedPart (a ++ b) = codec.wellFormedPart a ++ codec.wellFormedPart b :=
  List.filter_append ..

private theorem mem_wellFormedPart {codec : ShippedCodec} {queue : List CRawMessage}
    {m : CRawMessage} : m ∈ codec.wellFormedPart queue ↔
      m ∈ queue ∧ ¬codec.Malformed m.content := by
  simp [wellFormedPart]

/-- A part of full length was never thinned out. -/
private theorem wellFormed_of_length {codec : ShippedCodec} {queue : List CRawMessage}
    (h : queue.length = (codec.wellFormedPart queue).length) :
    ∀ m ∈ queue, ¬codec.Malformed m.content := by
  have hall := List.length_filter_eq_length_iff.mp h.symm
  intro m hm
  simpa using hall m hm

private theorem wellFormedPart_eq {codec : ShippedCodec} {queue : List CRawMessage}
    (h : ∀ m ∈ queue, ¬codec.Malformed m.content) : codec.wellFormedPart queue = queue :=
  List.filter_eq_self.mpr fun m hm => by simpa using h m hm

/-- A place in a queue lies before, at, or behind any other place. -/
private theorem split_cases {pre pre' post post' : List CRawMessage} {m m' : CRawMessage}
    (h : pre ++ m :: post = pre' ++ m' :: post') :
    m' ∈ pre ∨ (m' = m ∧ pre' = pre) ∨ m ∈ pre' := by
  rcases List.append_eq_append_iff.mp h with ⟨mid, rfl, hmid⟩ | ⟨mid, rfl, hmid⟩
  · cases mid with
    | nil =>
        obtain ⟨rfl, -⟩ := List.cons_eq_cons.mp hmid
        exact Or.inr (Or.inl ⟨rfl, by simp⟩)
    | cons x mid =>
        obtain ⟨rfl, -⟩ := List.cons_eq_cons.mp hmid
        exact Or.inr (Or.inr (by simp))
  · cases mid with
    | nil =>
        obtain ⟨rfl, -⟩ := List.cons_eq_cons.mp hmid
        exact Or.inr (Or.inl ⟨rfl, by simp⟩)
    | cons x mid =>
        obtain ⟨rfl, -⟩ := List.cons_eq_cons.mp hmid
        exact Or.inl (by simp)

/-- The same two statements about deliveries instead of the worker's run. -/
private theorem isolated_iff (codec : ShippedCodec) (queue : List CRawMessage) :
    (codec.deliveries queue = codec.deliveries (codec.wellFormedPart queue) ∧
      ∀ pre m post, queue = pre ++ m :: post → codec.Malformed m.content →
        (∀ x ∈ pre, codec.Decodes x) → codec.Decodes m) ↔
      codec.MalformedBehindBareHeader queue := by
  have hpart : ∀ q : List CRawMessage, (∀ x ∈ q, codec.Decodes x) →
      ∀ x ∈ codec.wellFormedPart q, codec.Decodes x :=
    fun q hq x hx => hq x (mem_wellFormedPart.mp hx).1
  have hbare : ∀ x, codec.Decodes x → ¬codec.BareHeader x.content :=
    fun x hx hb => hx (decodeOne_bareHeader hb)
  rcases first_failing codec queue with hall | ⟨pre, m, post, rfl, hpre, hm⟩
  · constructor
    · rintro ⟨heq, -⟩ pre m post hsplit hmal
      have hlen := congrArg List.length heq
      rw [length_deliveries hall, length_deliveries (hpart queue hall)] at hlen
      have hwf := wellFormed_of_length hlen m (by simp [hsplit])
      exact absurd hmal hwf
    · intro hcond
      have hwf : ∀ m ∈ queue, ¬codec.Malformed m.content := by
        intro m hm hmal
        obtain ⟨pre, post, rfl⟩ := List.append_of_mem hm
        obtain ⟨x, hx, hxbare⟩ := hcond pre m post rfl hmal
        exact hbare x (hall x (List.mem_append_left _ hx)) hxbare
      refine ⟨by rw [wellFormedPart_eq hwf], ?_⟩
      intro pre m post hsplit hmal
      exact absurd hmal (hwf m (by simp [hsplit]))
  · have hlhs : codec.deliveries (pre ++ m :: post) = codec.deliveries pre := by
      rw [deliveries_append hpre, deliveries_of_fails hm, List.append_nil]
    have hrhs : ¬codec.Malformed m.content →
        codec.deliveries (codec.wellFormedPart (pre ++ m :: post)) =
          codec.deliveries (codec.wellFormedPart pre) := by
      intro hwf
      have hcons : codec.wellFormedPart (m :: post) = m :: codec.wellFormedPart post := by
        simp [wellFormedPart, hwf]
      rw [wellFormedPart_append, deliveries_append (hpart pre hpre), hcons,
        deliveries_of_fails hm, List.append_nil]
    constructor
    · rintro ⟨heq, hsurvives⟩
      have hwfm : ¬codec.Malformed m.content :=
        fun hmal => hm (hsurvives pre m post rfl hmal hpre)
      have hbarem : codec.BareHeader m.content := by
        by_contra hnot
        exact hm (decodeOne_of_wellFormed hwfm hnot)
      rw [hlhs, hrhs hwfm] at heq
      have hlen := congrArg List.length heq
      rw [length_deliveries hpre, length_deliveries (hpart pre hpre)] at hlen
      have hwfpre := wellFormed_of_length hlen
      intro pre' m' post' hsplit hmal
      rcases split_cases hsplit with hin | ⟨rfl, -⟩ | hbehind
      · exact absurd hmal (hwfpre m' hin)
      · exact absurd hmal hwfm
      · exact ⟨m, hbehind, hbarem⟩
    · intro hcond
      have hwfpre : ∀ x ∈ pre, ¬codec.Malformed x.content := by
        intro x hx hmal
        obtain ⟨front, back, rfl⟩ := List.append_of_mem hx
        obtain ⟨y, hy, hybare⟩ := hcond front x (back ++ m :: post) (by simp) hmal
        exact hbare y (hpre y (List.mem_append_left _ hy)) hybare
      have hwfm : ¬codec.Malformed m.content := by
        intro hmal
        obtain ⟨y, hy, hybare⟩ := hcond pre m post rfl hmal
        exact hbare y (hpre y hy) hybare
      refine ⟨by rw [hlhs, hrhs hwfm, wellFormedPart_eq hwfpre], ?_⟩
      intro pre' m' post' hsplit hmal hdecodes
      rcases split_cases hsplit with hin | ⟨rfl, -⟩ | hbehind
      · exact absurd hmal (hwfpre m' hin)
      · exact absurd hmal hwfm
      · exact absurd (hdecodes m hbehind) hm

/-- The receive worker isolates the malformed buffers of a queue exactly when each of them comes
behind a well-formed bare command header; with a fixed-header codec, when there are none. -/
theorem isolatesMalformed_iff {codec : ShippedCodec} {config : CConfigProtocols ShippedHead}
    (hc : codec.Configured config) (updater : Bool) {queue : List CRawMessage}
    (hqueue : ∀ msgRaw ∈ queue, ∃ b, msgRaw.Holds b ∧ b ≠ []) :
    codec.IsolatesMalformed config updater queue ↔ codec.MalformedBehindBareHeader queue := by
  have hpart : ∀ m ∈ codec.wellFormedPart queue, ∃ b, m.Holds b ∧ b ≠ [] :=
    fun m hm => hqueue m (mem_wellFormedPart.mp hm).1
  rw [← isolated_iff]
  constructor
  · rintro ⟨hcalls, hsurvives⟩
    rw [runRoutin_callbacks hc updater hqueue, runRoutin_callbacks hc updater hpart] at hcalls
    refine ⟨hcalls, ?_⟩
    intro pre m post hsplit hmal hdecodes
    have hpre : ∀ x ∈ pre, ∃ b, x.Holds b ∧ b ≠ [] := fun x hx => hqueue x (by simp [hsplit, hx])
    have hpre' : ∀ x ∈ pre ++ [m], ∃ b, x.Holds b ∧ b ≠ [] := by
      intro x hx
      apply hqueue
      rw [hsplit, List.append_cons]
      exact List.mem_append_left _ hx
    have hends := hsurvives pre m post hsplit hmal
      ((runRoutin_ends_iff hc updater hpre).mpr hdecodes)
    exact (runRoutin_ends_iff hc updater hpre').mp hends m (by simp)
  · rintro ⟨hcalls, hsurvives⟩
    constructor
    · rw [runRoutin_callbacks hc updater hqueue, runRoutin_callbacks hc updater hpart]
      exact hcalls
    · intro pre m post hsplit hmal hends
      have hpre : ∀ x ∈ pre, ∃ b, x.Holds b ∧ b ≠ [] :=
        fun x hx => hqueue x (by simp [hsplit, hx])
      have hpre' : ∀ x ∈ pre ++ [m], ∃ b, x.Holds b ∧ b ≠ [] := by
        intro x hx
        apply hqueue
        rw [hsplit, List.append_cons]
        exact List.mem_append_left _ hx
      have hdecodes := (runRoutin_ends_iff hc updater hpre).mp hends
      apply (runRoutin_ends_iff hc updater hpre').mpr
      intro x hx
      rcases List.mem_append.mp hx with hx | hx
      · exact hdecodes x hx
      · obtain rfl := List.mem_singleton.mp hx
        exact hsurvives pre x post hsplit hmal hdecodes

/-- A buffer with one message of one byte. -/
def oneMessage : CRawMessage := .ofBytes (FixedHeader.frame .big 7 [0x41])

/-- A queue of one well-formed buffer is handled as it should be. -/
theorem isolatesMalformed_oneMessage :
    bigEndian.IsolatesMalformed bigEndianConfig true [oneMessage] := by
  refine (isolatesMalformed_iff bigEndianConfig_configured true ?_).mpr ?_
  · simp only [List.mem_singleton, forall_eq]
    exact ⟨_, CRawMessage.ofBytes_holds _, by decide⟩
  · rintro pre m post hsplit hmal
    obtain ⟨rfl, rfl, rfl⟩ : pre = [] ∧ m = oneMessage ∧ post = [] := by
      cases pre with
      | nil => simpa [eq_comm] using hsplit
      | cons x pre => simp at hsplit
    exact absurd hmal (by decide)

/-- One byte that is no complete header, and a message behind it: the message is lost, and the
worker does not survive the byte. -/
theorem malformed_byte_not_isolated :
    ¬bigEndian.IsolatesMalformed bigEndianConfig true [.ofBytes [0x00], oneMessage] ∧
      JobEvent.callbacks (runRoutin bigEndianConfig true [.ofBytes [0x00], oneMessage]).1 = [] ∧
      JobEvent.callbacks (runRoutin bigEndianConfig true [oneMessage]).1 ≠ [] := by
  have hbyte : (CRawMessage.ofBytes [0x00]).Holds [0x00] := CRawMessage.ofBytes_holds _
  have hmessage : oneMessage.Holds (FixedHeader.frame .big 7 [0x41]) :=
    CRawMessage.ofBytes_holds _
  have hqueue : ∀ m ∈ [CRawMessage.ofBytes [0x00], oneMessage], ∃ b, m.Holds b ∧ b ≠ [] := by
    simp only [List.forall_mem_cons, List.not_mem_nil, false_implies, implies_true, and_true]
    exact ⟨⟨_, hbyte, by decide⟩, ⟨_, hmessage, by decide⟩⟩
  have hlost : JobEvent.callbacks
      (runRoutin bigEndianConfig true [.ofBytes [0x00], oneMessage]).1 = [] := by
    rw [runRoutin_callbacks bigEndianConfig_configured true hqueue, deliveries,
      decodeOne_fixed rfl, if_neg (by decide)]
  have hkept : JobEvent.callbacks (runRoutin bigEndianConfig true [oneMessage]).1 ≠ [] := by
    rw [runRoutin_callbacks bigEndianConfig_configured true
      (fun m hm => hqueue m (List.mem_cons_of_mem _ hm)), deliveries, decodeOne_fixed rfl,
      if_pos (by decide)]
    simp
  refine ⟨?_, hlost, hkept⟩
  rintro ⟨hcalls, -⟩
  have hpart : bigEndian.wellFormedPart [.ofBytes [0x00], oneMessage] = [oneMessage] := by
    have hbad : bigEndian.Malformed (CRawMessage.ofBytes [0x00]).content := by decide
    have hgood : ¬bigEndian.Malformed oneMessage.content := by decide
    simp [wellFormedPart, hbad, hgood]
  rw [hlost, hpart] at hcalls
  exact hkept hcalls.symm

end ShippedCodec

end CommonCommunicator
