import DesCartes.Impl.Tonic.Wire

/-!
# Round trips of the wire format

Each part of a message is read back and not read off less of it (`Reader.Reads`); so is then the message.

* `decode_encode`: every message whose lengths fit in 32 bits.
-/

namespace DesCartes.Tonic

open Reader (Reads)

/-! ## Parts -/

/-- The length of the text in bytes fits in 32 bits. -/
def FitsString (s : List Char) : Prop := (Utf8.encode s).length < 2 ^ 32

/-- The lengths of the entries fit in 32 bits, and so does their number. -/
def FitsKv (entries : Entries) : Prop := entries.length < 2 ^ 32 ∧ ∀ e ∈ entries, FitsString e.1 ∧ FitsString e.2

instance (s : List Char) : Decidable (FitsString s) := inferInstanceAs (Decidable (_ < _))

instance (entries : Entries) : Decidable (FitsKv entries) := inferInstanceAs (Decidable (_ ∧ ∀ e ∈ entries, _ ∧ _))

theorem reads_u8 {v : Nat} (h : v < 256) : Reads getU8 (putU8 v) v := Reader.reads_getLittleEndian _ h

theorem reads_u32 {v : Nat} (h : v < 2 ^ 32) : Reads getU32 (putU32 v) v := Reader.reads_getLittleEndian _ h

theorem reads_u64 (v : UInt64) : Reads getU64 (putU64 v) v :=
  (Reader.reads_getLittleEndian _ v.toNat_lt).bind_pure UInt64.ofNat_toNat

theorem reads_bytes {bytes : List UInt8} (h : bytes.length < 2 ^ 32) :
    Reads getBytes (putBytes bytes) bytes :=
  (reads_u32 h).bind (Reader.reads_split _ rfl)

theorem reads_string {s : List Char} (h : FitsString s) : Reads getString (putString s) s :=
  (reads_bytes h).bind_lift (by rw [fromUtf8, Utf8.decode?_encode])

theorem reads_kv {entries : Entries} (h : FitsKv entries) : Reads getKv (putKv entries) entries := by
  refine (reads_u32 h.1).bind (Reads.times fun e he => ?_)
  obtain ⟨hk, hv⟩ := h.2 e he
  exact (reads_string hk).bind ((reads_string hv).bind_pure rfl)

/-! ## Messages -/

variable {κ : Type}

/-- What is encoded is decoded, whatever follows, and nothing is decoded of less. -/
structure RoundTrip {M : Type} (encode : M → List UInt8) (decode : List UInt8 → Except (Status κ) M) (m : M) : Prop where
  decode_append : ∀ rest, decode (encode m ++ rest) = .ok m
  decode_prefix : ∀ p, p <+: encode m → p ≠ encode m → ∃ status, decode p = .error status

theorem RoundTrip.decode {M : Type} {encode : M → List UInt8}
    {decode : List UInt8 → Except (Status κ) M} {m : M} (h : RoundTrip encode decode m) :
    decode (encode m) = .ok m := by
  have := h.decode_append []
  rwa [List.append_nil] at this

theorem roundTrip_of_reads {M : Type} {read : Reader UInt8 (Status κ) M} {encode : M → List UInt8} {m : M}
    (h : Reads read (encode m) m) : RoundTrip encode (fun bytes => read.run' bytes) m where
  decode_append rest := by
    show Prod.fst <$> read (encode m ++ rest) = _
    rw [h.whole]
    rfl
  decode_prefix p hp hne := by
    obtain ⟨status, hs⟩ := h.short p hp hne
    refine ⟨status, ?_⟩
    show Prod.fst <$> read p = _
    rw [hs]
    rfl

def UnaryRequestWire.Fits (msg : UnaryRequestWire) : Prop :=
  FitsString msg.method ∧ FitsKv msg.metadata ∧ msg.payload.length < 2 ^ 32

def UnaryResponseWire.Fits (msg : UnaryResponseWire κ) : Prop :=
  FitsString msg.message ∧ FitsKv msg.metadata ∧ msg.payload.length < 2 ^ 32

variable [TonicCode κ]

/-- A method exactly where a stream is opened, and no status where it goes on; the lengths fit. -/
structure StreamFrameWire.WellFormed (frame : StreamFrameWire κ) : Prop where
  method : frame.method.isSome ↔ frame.kind = .open
  status : frame.kind = .open ∨ frame.kind = .data →
    frame.statusOk = true ∧ frame.statusCode = TonicCode.ok ∧ frame.statusMessage = []
  fits : FitsString frame.streamId ∧ (∀ method ∈ frame.method, FitsString method) ∧ FitsKv frame.metadata ∧
    frame.payload.length < 2 ^ 32 ∧ FitsString frame.statusMessage

theorem reads_orInternal {α : Type} {get : Get α} {l : List UInt8} {a : α} (h : Reads get l a) :
    Reads (orInternal get : Reader UInt8 (Status κ) α) l a :=
  h.mapError _

theorem reads_unaryRequest {msg : UnaryRequestWire} (h : msg.Fits) :
    Reads (readUnaryRequest : Reader UInt8 (Status κ) _) (encodeUnaryRequest msg) msg :=
  (reads_orInternal (reads_string h.1)).bind <| (reads_orInternal (reads_kv h.2.1)).bind
    ((reads_orInternal (reads_bytes h.2.2)).bind_pure rfl)

theorem codeAsU32_lt (code : κ) : codeAsU32 code < 2 ^ 32 := (TonicCode.asI32 code).toUInt32.toNat_lt

theorem toNat_lt_256 (b : Bool) : b.toNat < 256 := by cases b <;> decide

theorem toNat_bne_zero (b : Bool) : (b.toNat != 0) = b := by cases b <;> rfl

theorem reads_method {frame : StreamFrameWire κ} (h : frame.WellFormed) :
    Reads (readMethod frame.kind : Reader UInt8 (Status κ) _) (putMethod frame) frame.method := by
  cases hmethod : frame.method with
  | none =>
    have hkind : frame.kind ≠ .open := fun hkind => by simpa [hmethod] using h.method.mpr hkind
    have hput : putMethod frame = putU8 0 := by
      unfold putMethod
      split
      · contradiction
      · rfl
    have hflag : Reads (orInternal getU8 : Reader UInt8 (Status κ) Nat) (putU8 0) 0 :=
      reads_orInternal (reads_u8 (by decide))
    rw [hput, ← List.append_nil (putU8 0)]
    refine hflag.bind ?_
    show Reads (if frame.kind = .open then _ else _) _ _
    rw [if_neg hkind]
    exact Reader.reads_pure none
  | some method =>
    have hkind : frame.kind = .open := h.method.mp (by rw [hmethod]; rfl)
    have hput : putMethod frame = putU8 1 ++ putString method := by rw [putMethod, hkind, hmethod]
    rw [hput, hkind]
    have hflag : Reads (orInternal getU8 : Reader UInt8 (Status κ) Nat) (putU8 1) 1 :=
      reads_orInternal (reads_u8 (by decide))
    have hstring : Reads (orInternal getString : Reader UInt8 (Status κ) _) (putString method) method :=
      reads_orInternal (reads_string (h.fits.2.1 method hmethod))
    exact hflag.bind (hstring.bind_pure rfl)

variable [LawfulTonicCode κ]

theorem codeFromU32_codeAsU32 (code : κ) : codeFromU32 (codeAsU32 code) = code := by
  rw [codeFromU32, codeAsU32, UInt32.ofNat_toNat, Int32.toInt32_toUInt32, LawfulTonicCode.fromI32_asI32]

theorem reads_unaryResponse {msg : UnaryResponseWire κ} (h : msg.Fits) :
    Reads readUnaryResponse (encodeUnaryResponse msg) msg := by
  refine (reads_orInternal (reads_u8 (toNat_lt_256 msg.ok))).bind ?_
  refine (reads_orInternal (reads_u32 (codeAsU32_lt msg.code))).bind ?_
  refine (reads_orInternal (reads_string h.1)).bind ?_
  refine (reads_orInternal (reads_kv h.2.1)).bind ?_
  refine (reads_orInternal (reads_bytes h.2.2)).bind_pure ?_
  rw [toNat_bne_zero, codeFromU32_codeAsU32]

theorem reads_status {frame : StreamFrameWire κ} (h : frame.WellFormed) :
    Reads (readStatus frame.kind) (putStatus frame) (frame.statusOk, frame.statusCode,
      frame.statusMessage) := by
  rw [readStatus, putStatus]
  by_cases hkind : frame.kind = .close ∨ frame.kind = .cancel
  · rw [if_pos hkind, if_pos hkind]
    refine (reads_orInternal (reads_u8 (toNat_lt_256 frame.statusOk))).bind ?_
    refine (reads_orInternal (reads_u32 (codeAsU32_lt frame.statusCode))).bind ?_
    refine (reads_orInternal (reads_string h.fits.2.2.2.2)).bind_pure ?_
    rw [toNat_bne_zero, codeFromU32_codeAsU32]
  · rw [if_neg hkind, if_neg hkind]
    obtain ⟨hok, hcode, hmessage⟩ := h.status (by cases hk : frame.kind <;> simp_all)
    rw [hok, hcode, hmessage]
    exact Reader.reads_pure _

theorem fromU8_direction (d : StreamDirection) : StreamDirection.fromU8 d.toU8 = .ok d := by cases d <;> rfl

theorem fromU8_kind (k : StreamFrameKind) : StreamFrameKind.fromU8 k.toU8 = .ok k := by cases k <;> rfl

theorem reads_streamFrame {frame : StreamFrameWire κ} (h : frame.WellFormed) :
    Reads readStreamFrame (encodeStreamFrame frame) frame := by
  obtain ⟨hid, -, hmetadata, hpayload, -⟩ := h.fits
  refine (reads_orInternal (reads_string hid)).bind ?_
  refine (reads_orInternal (reads_u8 (by cases frame.direction <;> decide))).bind ?_
  rw [← List.nil_append (putU64 _ ++ _)]
  refine (reads_orInternal (Reader.reads_lift (fromU8_direction frame.direction))).bind ?_
  refine (reads_orInternal (reads_u64 frame.seq)).bind ?_
  refine (reads_orInternal (reads_u8 (by cases frame.kind <;> decide))).bind ?_
  rw [← List.nil_append (putMethod frame ++ _)]
  refine (reads_orInternal (Reader.reads_lift (fromU8_kind frame.kind))).bind ?_
  refine (reads_method h).bind ?_
  refine (reads_orInternal (reads_kv hmetadata)).bind ?_
  refine (reads_orInternal (reads_bytes hpayload)).bind ?_
  exact (reads_status h).bind_pure rfl

theorem decode_streamFrame {frame : StreamFrameWire κ} (h : frame.WellFormed) :
    decodeStreamFrame (encodeStreamFrame frame) = .ok frame :=
  (roundTrip_of_reads (reads_streamFrame h)).decode

variable (κ) in
/-- The round trips of all messages. -/
theorem decode_encode : (∀ msg : UnaryRequestWire, msg.Fits → 
    RoundTrip encodeUnaryRequest (decodeUnaryRequest : _ → Except (Status κ) _) msg) ∧
    (∀ msg : UnaryResponseWire κ, msg.Fits → RoundTrip encodeUnaryResponse decodeUnaryResponse msg) ∧
    ∀ frame : StreamFrameWire κ, frame.WellFormed → RoundTrip encodeStreamFrame decodeStreamFrame frame :=
  ⟨fun _ h => roundTrip_of_reads (reads_unaryRequest h),
    fun _ h => roundTrip_of_reads (reads_unaryResponse h),
    fun _ h => roundTrip_of_reads (reads_streamFrame h)⟩

/-! ## A status code -/

/-- The codes of gRPC. -/
inductive GrpcCode where
  | ok
  | cancelled
  | unknown
  | invalidArgument
  | deadlineExceeded
  | notFound
  | alreadyExists
  | permissionDenied
  | resourceExhausted
  | failedPrecondition
  | aborted
  | outOfRange
  | unimplemented
  | internal
  | unavailable
  | dataLoss
  | unauthenticated
deriving DecidableEq

namespace GrpcCode

def all : List GrpcCode :=
  [ok, cancelled, unknown, invalidArgument, deadlineExceeded, notFound, alreadyExists, permissionDenied, resourceExhausted,
    failedPrecondition, aborted, outOfRange, unimplemented, internal, unavailable, dataLoss, unauthenticated]

instance : TonicCode GrpcCode where
  asI32 code := .ofNat (all.idxOf code)
  fromI32 i := (all.find? fun code => i = .ofNat (all.idxOf code)).getD unknown
  ok := ok
  cancelled := cancelled
  deadlineExceeded := deadlineExceeded
  internal := internal
  invalidArgument := invalidArgument
  resourceExhausted := resourceExhausted
  unavailable := unavailable
  unimplemented := unimplemented

instance : LawfulTonicCode GrpcCode where
  fromI32_asI32 code := by cases code <;> decide

end GrpcCode

/-- A frame that closes a stream with an error. -/
def notFound : StreamFrameWire GrpcCode :=
  ⟨"s1".toList, .serverToClient, 2, .close, none, [], [], false, .notFound, "nope".toList⟩

theorem decode_encode_notFound : RoundTrip encodeStreamFrame decodeStreamFrame notFound ∧
    RoundTrip encodeUnaryRequest (decodeUnaryRequest : _ → Except (Status GrpcCode) _)
      ⟨"/svc/Method".toList, [("k".toList, "v".toList)], [1, 2]⟩ ∧
    RoundTrip encodeUnaryResponse decodeUnaryResponse (⟨true, GrpcCode.ok, [], [], [3]⟩ : UnaryResponseWire GrpcCode) := by
  obtain ⟨hrequest, hresponse, hframe⟩ := decode_encode GrpcCode
  exact ⟨hframe _ ⟨by decide, by decide, by decide, nofun, by decide, by decide, by decide⟩,
    hrequest _ ⟨by decide, by decide, by decide⟩, hresponse _ ⟨by decide, by decide, by decide⟩⟩

/-! ## The frames of a stream -/

/-- A frame of the stream `s1`. -/
def frameOf (direction : StreamDirection) (seq : Nat) (kind : StreamFrameKind) (payload : List UInt8) :
    StreamFrameWire GrpcCode :=
  ⟨"s1".toList, direction, .ofNat seq, kind, if kind = .open then some "/svc/Method".toList else none, [], payload, true, .ok,
    []⟩

/-- The payloads of a stream with `n` of them. -/
def payloadsOf (n : Nat) : List (List UInt8) := (List.range n).map fun i => [.ofNat i]

/-- The frame of the stream with the number. -/
def numbered (direction : StreamDirection) (n i : Nat) : StreamFrameWire GrpcCode :=
  if i = 0 then frameOf direction 0 .open []
  else if i ≤ n then frameOf direction i .data [.ofNat (i - 1)]
  else frameOf direction i .close []

theorem decode_frameOf {direction : StreamDirection} {seq : Nat} {kind : StreamFrameKind} {payload : List UInt8}
    (h : payload.length < 2 ^ 32) :
    decodeStreamFrame (encodeStreamFrame (frameOf direction seq kind payload)) = .ok (frameOf direction seq kind payload) := by
  have hframe : (frameOf direction seq kind payload).WellFormed := by
    refine ⟨?_, fun _ => ⟨rfl, rfl, rfl⟩, (by decide : FitsString "s1".toList), ?_, (by decide : FitsKv []), h,
      (by decide : FitsString [])⟩
    · cases kind <;> simp [frameOf]
    · cases kind
      · rintro method ⟨⟩
        decide
      · nofun
      · nofun
      · nofun
  exact decode_streamFrame hframe

theorem decode_numbered (direction : StreamDirection) (n i : Nat) :
    decodeStreamFrame (encodeStreamFrame (numbered direction n i)) = .ok (numbered direction n i) := by
  unfold numbered
  repeat' split
  · exact decode_frameOf (by decide)
  · exact decode_frameOf (Nat.one_lt_two_pow (by decide))
  · exact decode_frameOf (by decide)

theorem numbered_seq {direction : StreamDirection} {n i : Nat} (hn : n + 1 < 2 ^ 64) (hi : i ≤ n + 1) :
    (numbered direction n i).seq.toNat = i := by
  have hseq : ∀ kind payload, (frameOf direction i kind payload).seq.toNat = i := fun kind payload =>
    UInt64.toNat_ofNat_of_lt' (hi.trans_lt hn)
  unfold numbered
  repeat' split
  · rename_i hzero
    subst hzero
    rfl
  · exact hseq _ _
  · exact hseq _ _

/-- The first frame opens the stream, the last one closes it, and each one between has a payload. -/
theorem numbered_cases (direction : StreamDirection) {n i : Nat} (hi : i ≤ n + 1) :
    i = 0 ∧ numbered direction n i = frameOf direction 0 .open [] ∨
    (∃ j, i = j + 1 ∧ ∃ payload, (payloadsOf n)[j]? = some payload ∧ numbered direction n i = frameOf direction i .data payload) ∨
    i = (payloadsOf n).length + 1 ∧ numbered direction n i = frameOf direction i .close [] := by
  by_cases hzero : i = 0
  · exact .inl ⟨hzero, if_pos hzero⟩
  by_cases hle : i ≤ n
  · have hlt : i - 1 < n := by omega
    refine .inr (.inl ⟨i - 1, by omega, [.ofNat (i - 1)], ?_, ?_⟩)
    · rw [payloadsOf, List.getElem?_map, List.getElem?_range hlt, Option.map_some]
    · rw [numbered, if_neg hzero, if_pos hle]
  · refine .inr (.inr ⟨?_, ?_⟩)
    · rw [payloadsOf, List.length_map, List.length_range]
      omega
    · rw [numbered, if_neg hzero, if_neg hle]

end DesCartes.Tonic
