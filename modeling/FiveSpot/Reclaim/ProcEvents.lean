import FiveSpot.Data.Words
import FiveSpot.Reclaim.Netlink

/-!
# Process events on the wire

The parsers of `netlink_proc.rs`: a connector message with a declared length, and in it an event of which
only those of `execve` are decoded. Every byte string is either a message of the documented layout or gets
the error that the docs name for it.
-/

namespace FiveSpot.Reclaim

set_option autoImplicit false

open Utf8 Words

def cnIdxProc : Nat := 1
def cnValProc : Nat := 1
def procEventExecRaw : Nat := 2
def cnMsgHeaderLen : Nat := 20
def procEventHeaderLen : Nat := 16
def procEventExecPayloadLen : Nat := 8

/-- The errors of the parsers; those of the socket are not among them. -/
inductive NetlinkError where
  | truncated (expected actual : Nat)
  | invalidId (idx val : Nat)
  deriving DecidableEq

def parseCnMsg (bytes : Bytes) : Option (Except NetlinkError Bytes) := do
  if bytes.length < cnMsgHeaderLen then
    return .error (.truncated cnMsgHeaderLen bytes.length)
  else
    let idx ← readLe 4 bytes 0 4
    let val ← readLe 4 bytes 4 8
    if idx ≠ cnIdxProc ∨ val ≠ cnValProc then
      return .error (.invalidId idx val)
    else
      let len ← readLe 2 bytes 16 18
      let needed := cnMsgHeaderLen + len
      if bytes.length < needed then
        return .error (.truncated needed bytes.length)
      else
        let payload ← slice bytes cnMsgHeaderLen needed
        return .ok payload

def parseProcEvent (bytes : Bytes) : Option (Except NetlinkError ProcEvent) := do
  if bytes.length < procEventHeaderLen then
    return .error (.truncated procEventHeaderLen bytes.length)
  else
    let what ← readLe 4 bytes 0 4
    if what ≠ procEventExecRaw then
      return .ok (.other what)
    else
      let execEnd := procEventHeaderLen + procEventExecPayloadLen
      if bytes.length < execEnd then
        return .error (.truncated execEnd bytes.length)
      else
        let pid ← readLe 4 bytes procEventHeaderLen (procEventHeaderLen + 4)
        let tgid ← readLe 4 bytes (procEventHeaderLen + 4) execEnd
        return .ok (.exec pid tgid)

def parseMessage (bytes : Bytes) : Option (Except NetlinkError ProcEvent) := do
  match ← parseCnMsg bytes with
  | .error e => return .error e
  | .ok payload => parseProcEvent payload

section Layout

/-! The documented layout. -/

structure CnMsg where
  idx : BitVec 32
  val : BitVec 32
  seq : BitVec 32
  ack : BitVec 32
  len : BitVec 16
  flags : BitVec 16

def CnMsg.encode (m : CnMsg) : Bytes :=
  toLeBytes m.idx ++ (toLeBytes m.val ++ (toLeBytes m.seq ++ (toLeBytes m.ack ++
    (toLeBytes m.len ++ toLeBytes m.flags))))

structure EventHeader where
  what : BitVec 32
  cpu : BitVec 32
  timestampNs : BitVec 64

def EventHeader.encode (h : EventHeader) : Bytes :=
  toLeBytes h.what ++ (toLeBytes h.cpu ++ toLeBytes h.timestampNs)

/-- A message for this subsystem whose declared payload is there, with any bytes after it. -/
structure Message (bytes : Bytes) (m : CnMsg) (payload rest : Bytes) : Prop where
  layout : bytes = m.encode ++ (payload ++ rest)
  idx : m.idx = 1
  val : m.val = 1
  len : payload.length = m.len.toNat

/-- The payload begins with an event of `execve` and its two fields. -/
def IsExec (bytes : Bytes) (pid tgid : Nat) : Prop :=
  ∃ (m : CnMsg) (h : EventHeader) (p t : BitVec 32) (more rest : Bytes),
    Message bytes m (h.encode ++ (toLeBytes p ++ (toLeBytes t ++ more))) rest ∧ h.what = 2 ∧
      p.toNat = pid ∧ t.toNat = tgid

def IsOther (bytes : Bytes) (what : Nat) : Prop :=
  ∃ (m : CnMsg) (h : EventHeader) (more rest : Bytes),
    Message bytes m (h.encode ++ more) rest ∧ h.what ≠ 2 ∧ h.what.toNat = what

/-- What the docs say of bytes that hold no event. -/
inductive Malformed : Bytes → NetlinkError → Prop
  | header {bytes : Bytes} : bytes.length < 20 → Malformed bytes (.truncated 20 bytes.length)
  | id {m : CnMsg} {rest : Bytes} : ¬ (m.idx = 1 ∧ m.val = 1) →
      Malformed (m.encode ++ rest) (.invalidId m.idx.toNat m.val.toNat)
  | payload {m : CnMsg} {rest : Bytes} : m.idx = 1 → m.val = 1 → rest.length < m.len.toNat →
      Malformed (m.encode ++ rest) (.truncated (20 + m.len.toNat) (20 + rest.length))
  | event {bytes payload rest : Bytes} {m : CnMsg} : Message bytes m payload rest →
      payload.length < 16 → Malformed bytes (.truncated 16 payload.length)
  | exec {bytes payload rest : Bytes} {m : CnMsg} {h : EventHeader} :
      Message bytes m (h.encode ++ payload) rest → h.what = 2 → (h.encode ++ payload).length < 24 →
        Malformed bytes (.truncated 24 (h.encode ++ payload).length)

@[simp] theorem CnMsg.length_encode (m : CnMsg) : m.encode.length = 20 := by
  simp [CnMsg.encode]

@[simp] theorem EventHeader.length_encode (h : EventHeader) : h.encode.length = 16 := by
  simp [EventHeader.encode]

theorem exists_cnMsg {bytes : Bytes} (h : 20 ≤ bytes.length) :
    ∃ (m : CnMsg) (rest : Bytes), bytes = m.encode ++ rest := by
  obtain ⟨idx, bytes, rfl⟩ := exists_toLeBytes (n := 32) (by decide) (show _ ≤ bytes.length by omega)
  simp only [List.length_append, length_toLeBytes] at h
  obtain ⟨val, bytes, rfl⟩ := exists_toLeBytes (n := 32) (by decide) (show _ ≤ bytes.length by omega)
  simp only [List.length_append, length_toLeBytes] at h
  obtain ⟨seq, bytes, rfl⟩ := exists_toLeBytes (n := 32) (by decide) (show _ ≤ bytes.length by omega)
  simp only [List.length_append, length_toLeBytes] at h
  obtain ⟨ack, bytes, rfl⟩ := exists_toLeBytes (n := 32) (by decide) (show _ ≤ bytes.length by omega)
  simp only [List.length_append, length_toLeBytes] at h
  obtain ⟨len, bytes, rfl⟩ := exists_toLeBytes (n := 16) (by decide) (show _ ≤ bytes.length by omega)
  simp only [List.length_append, length_toLeBytes] at h
  obtain ⟨flags, bytes, rfl⟩ := exists_toLeBytes (n := 16) (by decide) (show _ ≤ bytes.length by omega)
  exact ⟨⟨idx, val, seq, ack, len, flags⟩, bytes, by simp [CnMsg.encode]⟩

theorem exists_eventHeader {bytes : Bytes} (h : 16 ≤ bytes.length) :
    ∃ (e : EventHeader) (rest : Bytes), bytes = e.encode ++ rest := by
  obtain ⟨what, bytes, rfl⟩ := exists_toLeBytes (n := 32) (by decide) (show _ ≤ bytes.length by omega)
  simp only [List.length_append, length_toLeBytes] at h
  obtain ⟨cpu, bytes, rfl⟩ := exists_toLeBytes (n := 32) (by decide) (show _ ≤ bytes.length by omega)
  simp only [List.length_append, length_toLeBytes] at h
  obtain ⟨timestampNs, bytes, rfl⟩ := exists_toLeBytes (n := 64) (by decide) (show _ ≤ bytes.length by omega)
  exact ⟨⟨what, cpu, timestampNs⟩, bytes, by simp [EventHeader.encode]⟩

end Layout

section Parsers

theorem parseCnMsg_short {bytes : Bytes} (h : bytes.length < 20) :
    parseCnMsg bytes = some (.error (.truncated 20 bytes.length)) := by
  have hshort : bytes.length < cnMsgHeaderLen := h
  rw [parseCnMsg, if_pos hshort]
  rfl

variable (m : CnMsg) (rest : Bytes)

theorem readLe_idx : readLe 4 (m.encode ++ rest) 0 4 = some m.idx.toNat := by
  simp only [CnMsg.encode, List.append_assoc]
  exact readLe_append (n := 32) (by decide) rfl List.length_nil rfl

theorem readLe_val : readLe 4 (m.encode ++ rest) 4 8 = some m.val.toNat := by
  simp only [CnMsg.encode, List.append_assoc]
  exact readLe_append (by decide) rfl (length_toLeBytes m.idx) rfl

theorem readLe_len : readLe 2 (m.encode ++ rest) 16 18 = some m.len.toNat := by
  have hlayout : m.encode ++ rest = (toLeBytes m.idx ++ (toLeBytes m.val ++ (toLeBytes m.seq ++
      toLeBytes m.ack))) ++ (toLeBytes m.len ++ (toLeBytes m.flags ++ rest)) := by
    simp only [CnMsg.encode, List.append_assoc]
  rw [hlayout]
  exact readLe_append (by decide) rfl (by simp) rfl

theorem parseCnMsg_encode : parseCnMsg (m.encode ++ rest) = some (
    if ¬ (m.idx = 1 ∧ m.val = 1) then .error (.invalidId m.idx.toNat m.val.toNat)
    else if rest.length < m.len.toNat then
      .error (.truncated (20 + m.len.toNat) (20 + rest.length))
    else .ok (rest.take m.len.toNat)) := by
  have hlength : (m.encode ++ rest).length = 20 + rest.length := by simp
  have hlong : ¬ (m.encode ++ rest).length < cnMsgHeaderLen := by
    rw [hlength]
    exact Nat.not_lt.mpr (Nat.le_add_right 20 _)
  have hid : (m.idx.toNat ≠ cnIdxProc ∨ m.val.toNat ≠ cnValProc) ↔ ¬ (m.idx = 1 ∧ m.val = 1) := by
    rw [← BitVec.toNat_inj, ← BitVec.toNat_inj]
    exact Decidable.not_and_iff_or_not.symm
  rw [parseCnMsg, if_neg hlong, readLe_idx, readLe_val, readLe_len, hlength]
  simp only [Option.bind_eq_bind, Option.bind_some, Option.pure_def, hid]
  split
  · rfl
  · by_cases hfit : rest.length < m.len.toNat
    · have hneeded : 20 + rest.length < cnMsgHeaderLen + m.len.toNat := Nat.add_lt_add_left hfit 20
      rw [if_pos hneeded, if_pos hfit]
      rfl
    · have hneeded : ¬ 20 + rest.length < cnMsgHeaderLen + m.len.toNat := by
        rw [Nat.not_lt] at hfit ⊢
        exact Nat.add_le_add_left hfit 20
      have hpayload : slice (m.encode ++ rest) cnMsgHeaderLen (cnMsgHeaderLen + m.len.toNat) =
          some (rest.take m.len.toNat) := by
        rw [← List.take_append_drop m.len.toNat rest]
        refine (slice_append m.length_encode ?_).trans ?_
        · rw [List.length_take_of_le (Nat.not_lt.mp hfit)]
          rfl
        · rw [List.take_append_drop]
      rw [if_neg hneeded, if_neg hfit, hpayload, Option.bind_some]

theorem parseProcEvent_short {bytes : Bytes} (h : bytes.length < 16) :
    parseProcEvent bytes = some (.error (.truncated 16 bytes.length)) := by
  have hshort : bytes.length < procEventHeaderLen := h
  rw [parseProcEvent, if_pos hshort]
  rfl

variable (h : EventHeader)

theorem readLe_what : readLe 4 (h.encode ++ rest) 0 4 = some h.what.toNat := by
  simp only [EventHeader.encode, List.append_assoc]
  exact readLe_append (n := 32) (by decide) rfl List.length_nil rfl

theorem parseProcEvent_encode_of_ne (hwhat : h.what ≠ 2) :
    parseProcEvent (h.encode ++ rest) = some (.ok (.other h.what.toNat)) := by
  have hlong : ¬ (h.encode ++ rest).length < procEventHeaderLen := by
    simp [procEventHeaderLen]
  have hraw : h.what.toNat ≠ procEventExecRaw := fun heq => hwhat (BitVec.toNat_inj.mp heq)
  rw [parseProcEvent, if_neg hlong, readLe_what, Option.bind_eq_bind, Option.bind_some, if_pos hraw]
  rfl

theorem parseProcEvent_encode_of_eq (hwhat : h.what = 2) :
    parseProcEvent (h.encode ++ rest) =
      if (h.encode ++ rest).length < 24 then some (.error (.truncated 24 (h.encode ++ rest).length))
      else do
        let pid ← readLe 4 (h.encode ++ rest) 16 20
        let tgid ← readLe 4 (h.encode ++ rest) 20 24
        return .ok (.exec pid tgid) := by
  have hlong : ¬ (h.encode ++ rest).length < procEventHeaderLen := by
    simp [procEventHeaderLen]
  have hraw : ¬ h.what.toNat ≠ procEventExecRaw := by
    rw [hwhat]
    decide
  rw [parseProcEvent, if_neg hlong, readLe_what, Option.bind_eq_bind, Option.bind_some, if_neg hraw]
  rfl

theorem parseProcEvent_encode_short (hwhat : h.what = 2) (hshort : (h.encode ++ rest).length < 24) :
    parseProcEvent (h.encode ++ rest) = some (.error (.truncated 24 (h.encode ++ rest).length)) := by
  rw [parseProcEvent_encode_of_eq rest h hwhat, if_pos hshort]

theorem parseProcEvent_encode_exec (hwhat : h.what = 2) (p t : BitVec 32) :
    parseProcEvent (h.encode ++ (toLeBytes p ++ (toLeBytes t ++ rest))) =
      some (.ok (.exec p.toNat t.toNat)) := by
  have hlong : ¬ (h.encode ++ (toLeBytes p ++ (toLeBytes t ++ rest))).length < 24 := by
    simp only [List.length_append, length_toLeBytes, EventHeader.length_encode]
    omega
  have hpid : readLe 4 (h.encode ++ (toLeBytes p ++ (toLeBytes t ++ rest))) 16 20 = some p.toNat :=
    readLe_append (by decide) rfl h.length_encode rfl
  have htgid : readLe 4 (h.encode ++ (toLeBytes p ++ (toLeBytes t ++ rest))) 20 24 = some t.toNat := by
    rw [← List.append_assoc]
    exact readLe_append (by decide) rfl (by simp) rfl
  rw [parseProcEvent_encode_of_eq _ h hwhat, if_neg hlong, hpid, htgid]
  rfl

end Parsers

section Characterisation

variable {bytes payload rest : Bytes} {m : CnMsg}

theorem parseMessage_of_error {e : NetlinkError} (h : parseCnMsg bytes = some (.error e)) :
    parseMessage bytes = some (.error e) := by
  rw [parseMessage, h]
  rfl

theorem Message.parseMessage_eq (h : Message bytes m payload rest) :
    parseMessage bytes = parseProcEvent payload := by
  have hfit : ¬ (payload ++ rest).length < m.len.toNat := by
    rw [List.length_append, h.len]
    omega
  have hpayload : (payload ++ rest).take m.len.toNat = payload := by
    rw [← h.len, List.take_left]
  have hmsg : parseCnMsg bytes = some (.ok payload) := by
    rw [h.layout, parseCnMsg_encode, if_neg (not_not_intro ⟨h.idx, h.val⟩), if_neg hfit, hpayload]
  rw [parseMessage, hmsg]
  rfl

/-- What the layout makes of the bytes. -/
def Reads (bytes : Bytes) : Except NetlinkError ProcEvent → Prop
  | .ok (.exec pid tgid) => IsExec bytes pid tgid
  | .ok (.other what) => IsOther bytes what
  | .error e => Malformed bytes e

theorem IsExec.parse {pid tgid : Nat} (h : IsExec bytes pid tgid) :
    parseMessage bytes = some (.ok (.exec pid tgid)) := by
  obtain ⟨m, e, p, t, more, rest, hmsg, hwhat, rfl, rfl⟩ := h
  rw [hmsg.parseMessage_eq]
  exact parseProcEvent_encode_exec more e hwhat p t

theorem IsOther.parse {what : Nat} (h : IsOther bytes what) :
    parseMessage bytes = some (.ok (.other what)) := by
  obtain ⟨m, e, more, rest, hmsg, hwhat, rfl⟩ := h
  rw [hmsg.parseMessage_eq]
  exact parseProcEvent_encode_of_ne more e hwhat

theorem Malformed.parse {e : NetlinkError} (h : Malformed bytes e) :
    parseMessage bytes = some (.error e) := by
  cases h with
  | header hshort => exact parseMessage_of_error (parseCnMsg_short hshort)
  | id hid =>
    refine parseMessage_of_error ?_
    rw [parseCnMsg_encode, if_pos hid]
  | payload hidx hval hlen =>
    refine parseMessage_of_error ?_
    rw [parseCnMsg_encode, if_neg (not_not_intro ⟨hidx, hval⟩), if_pos hlen]
  | event hmsg hshort =>
    rw [hmsg.parseMessage_eq]
    exact parseProcEvent_short hshort
  | exec hmsg hwhat hshort =>
    rw [hmsg.parseMessage_eq]
    exact parseProcEvent_encode_short _ _ hwhat hshort

theorem Reads.parse {result : Except NetlinkError ProcEvent} (h : Reads bytes result) :
    parseMessage bytes = some result := by
  match result, h with
  | .ok (.exec _ _), h => exact IsExec.parse h
  | .ok (.other _), h => exact IsOther.parse h
  | .error _, h => exact Malformed.parse h

theorem Message.exists_reads (h : Message bytes m payload rest) : ∃ result, Reads bytes result := by
  rcases Nat.lt_or_ge payload.length 16 with hshort | hlong
  · exact ⟨.error _, Malformed.event h hshort⟩
  obtain ⟨e, more, rfl⟩ := exists_eventHeader hlong
  by_cases hwhat : e.what = 2
  · rcases Nat.lt_or_ge (e.encode ++ more).length 24 with hshort | hexec
    · exact ⟨.error _, Malformed.exec h hwhat hshort⟩
    · -- eight bytes are left for the two fields
      simp only [List.length_append, EventHeader.length_encode] at hexec
      obtain ⟨p, more, rfl⟩ := exists_toLeBytes (n := 32) (by decide) (show _ ≤ more.length by omega)
      simp only [List.length_append, length_toLeBytes] at hexec
      obtain ⟨t, more, rfl⟩ := exists_toLeBytes (n := 32) (by decide) (show _ ≤ more.length by omega)
      exact ⟨.ok (.exec p.toNat t.toNat), m, e, p, t, more, rest, h, hwhat, rfl, rfl⟩
  · exact ⟨.ok (.other e.what.toNat), m, e, more, rest, h, hwhat, rfl⟩

theorem exists_reads (bytes : Bytes) : ∃ result, Reads bytes result := by
  rcases Nat.lt_or_ge bytes.length 20 with hshort | hlong
  · exact ⟨.error _, Malformed.header hshort⟩
  obtain ⟨m, rest, rfl⟩ := exists_cnMsg hlong
  by_cases hid : m.idx = 1 ∧ m.val = 1
  · rcases Nat.lt_or_ge rest.length m.len.toNat with hshort | hfit
    · exact ⟨.error _, Malformed.payload hid.1 hid.2 hshort⟩
    · have hmsg : Message (m.encode ++ rest) m (rest.take m.len.toNat) (rest.drop m.len.toNat) :=
        ⟨by rw [List.take_append_drop], hid.1, hid.2, List.length_take_of_le hfit⟩
      exact hmsg.exists_reads
  · exact ⟨.error _, Malformed.id hid⟩

/-- The parsers give for every byte string what its layout says. -/
theorem parseMessage_eq_some_iff {result : Except NetlinkError ProcEvent} :
    parseMessage bytes = some result ↔ Reads bytes result := by
  refine ⟨fun h => ?_, Reads.parse⟩
  obtain ⟨result', hreads⟩ := exists_reads bytes
  rwa [← Option.some.inj (hreads.parse.symm.trans h)]

theorem parseMessage_append (hlen : payload.length = m.len.toNat) :
    parseMessage (m.encode ++ (payload ++ rest)) = parseMessage (m.encode ++ payload) := by
  by_cases hid : m.idx = 1 ∧ m.val = 1
  · have hwith : Message (m.encode ++ (payload ++ rest)) m payload rest := ⟨rfl, hid.1, hid.2, hlen⟩
    have hwithout : Message (m.encode ++ payload) m payload [] :=
      ⟨by rw [List.append_nil], hid.1, hid.2, hlen⟩
    rw [hwith.parseMessage_eq, hwithout.parseMessage_eq]
  · rw [Malformed.parse (.id hid), Malformed.parse (.id hid)]

/-- A message of the kernel about an `execve`, without anything after it. -/
def execMessage (seq ack : BitVec 32) (flags : BitVec 16) (cpu : BitVec 32) (timestampNs : BitVec 64)
    (pid tgid : BitVec 32) : Bytes :=
  CnMsg.encode ⟨1, 1, seq, ack, 24, flags⟩ ++ (EventHeader.encode ⟨2, cpu, timestampNs⟩ ++
    (toLeBytes pid ++ toLeBytes tgid))

theorem isExec_execMessage (seq ack : BitVec 32) (flags : BitVec 16) (cpu : BitVec 32)
    (timestampNs : BitVec 64) (pid tgid : BitVec 32) :
    IsExec (execMessage seq ack flags cpu timestampNs pid tgid) pid.toNat tgid.toNat := by
  refine ⟨⟨1, 1, seq, ack, 24, flags⟩, ⟨2, cpu, timestampNs⟩, pid, tgid, [], [], ⟨?_, rfl, rfl, ?_⟩,
    rfl, rfl, rfl⟩
  · simp [execMessage]
  · simp

end Characterisation

section Subscriber

def nlmsghdrLen : Nat := 16
def recvBufLen : Nat := 4096

/-- `Subscriber::next_event`, from what `recv` gives; a datagram is cut at the length of the buffer. -/
def nextEvent (received : Except String Bytes) : Option (Except String (Option ProcEvent)) := do
  match received with
  | .error e => return .error ("netlink i/o: " ++ e)
  | .ok datagram =>
      let buf := datagram.take recvBufLen
      if buf.length < nlmsghdrLen then
        return .ok none
      else
        match ← parseCnMsg (← slice buf nlmsghdrLen buf.length) with
        | .error _ => return .ok none
        | .ok payload =>
            match ← parseProcEvent payload with
            | .ok event => return .ok (some event)
            | .error _ => return .ok none

theorem nextEvent_append {header bytes : Bytes} {result : Except NetlinkError ProcEvent}
    (hheader : header.length = nlmsghdrLen) (hlength : (header ++ bytes).length ≤ recvBufLen)
    (hreads : Reads bytes result) : nextEvent (.ok (header ++ bytes)) = some (.ok result.toOption) := by
  have hbuf : (header ++ bytes).take recvBufLen = header ++ bytes := List.take_of_length_le hlength
  have hlong : ¬ (header ++ bytes).length < nlmsghdrLen := by
    rw [List.length_append, hheader]
    exact Nat.not_lt.mpr (Nat.le_add_right _ _)
  have hslice : slice (header ++ bytes) nlmsghdrLen (header ++ bytes).length = some bytes := by
    have hend : nlmsghdrLen + bytes.length = (header ++ bytes).length := by
      rw [List.length_append, hheader]
    have happend : slice (header ++ (bytes ++ [])) nlmsghdrLen _ = some bytes :=
      slice_append hheader hend
    rwa [List.append_nil] at happend
  have hparse := hreads.parse
  rw [parseMessage] at hparse
  obtain ⟨message, hmessage, hevent⟩ := Option.bind_eq_some_iff.mp hparse
  simp only [nextEvent, hbuf, if_neg hlong, hslice, hmessage, Option.bind_eq_bind, Option.bind_some]
  cases message with
  | error e =>
    obtain rfl := Option.some.inj hevent
    rfl
  | ok payload =>
    have hevent : parseProcEvent payload = some result := hevent
    dsimp only
    rw [hevent, Option.bind_some]
    cases result with
    | ok event => rfl
    | error e => rfl

/--
For every byte string: there is a result; it is an event exactly for the messages that hold one, and an
error exactly as documented; it does not depend on what follows the declared payload. What is encoded is
read back. The subscriber hands on the event of the message behind the netlink header, and drops the
message when there is none.
-/
theorem proc_connector_exact (bytes : Bytes) :
    (∃ result, parseMessage bytes = some result) ∧
      (∀ pid tgid, parseMessage bytes = some (.ok (.exec pid tgid)) ↔ IsExec bytes pid tgid) ∧
      (∀ what, parseMessage bytes = some (.ok (.other what)) ↔ IsOther bytes what) ∧
      (∀ e, parseMessage bytes = some (.error e) ↔ Malformed bytes e) ∧
      (∀ (m : CnMsg) (payload rest : Bytes), bytes = m.encode ++ (payload ++ rest) →
        payload.length = m.len.toNat → parseMessage bytes = parseMessage (m.encode ++ payload)) ∧
      (∀ seq ack flags cpu timestampNs pid tgid,
        parseMessage (execMessage seq ack flags cpu timestampNs pid tgid) =
          some (.ok (.exec pid.toNat tgid.toNat))) ∧
      ∀ header : Bytes, header.length = nlmsghdrLen → (header ++ bytes).length ≤ recvBufLen →
        nextEvent (.ok (header ++ bytes)) = some (.ok ((parseMessage bytes).bind Except.toOption)) := by
  refine ⟨?_, fun pid tgid => parseMessage_eq_some_iff, fun what => parseMessage_eq_some_iff,
    fun e => parseMessage_eq_some_iff, ?_, ?_, ?_⟩
  · obtain ⟨result, hreads⟩ := exists_reads bytes
    exact ⟨result, hreads.parse⟩
  · rintro m payload rest rfl hlen
    exact parseMessage_append hlen
  · intro seq ack flags cpu timestampNs pid tgid
    exact (isExec_execMessage seq ack flags cpu timestampNs pid tgid).parse
  · intro header hheader hlength
    obtain ⟨result, hreads⟩ := exists_reads bytes
    rw [nextEvent_append hheader hlength hreads, hreads.parse]
    rfl

end Subscriber

end FiveSpot.Reclaim
