import BgqVrnic.ConnTypes
import BgqVrnic.PackedBytes

namespace BgqVrnic

open PackedBytes

def MsgType.code : MsgType → Nat
  | .connRequest => 0x1bc2
  | .connReply => 0x1bc3
  | .disconnected => 0xdddd
  | .pktDataImm => 0x1bc1
  | .pktDataRemote => 0x88b1
  | .rdmaRead => 0x4444
  | .rdmaWrite => 0x5555
  | .dput => 0x5544
  | .ipImmed => 0x1bc0

def MsgType.ofCode (n : Nat) : Option MsgType :=
  [connRequest, connReply, disconnected, pktDataImm, pktDataRemote, rdmaRead, rdmaWrite, dput,
    ipImmed].find? fun t => t.code = n

def headerFields (h : IonetHeader) : Fields :=
  [(2, h.sequenceNumber), (4, h.torusSourceNode), (4, h.torusDestNode), (2, h.payloadLength),
    (2, h.type.code), (2, h.sourceQpn), (2, h.destQpn)]

def fixedFields (b : ConnectBody) : Fields :=
  [(4, b.sourcePort), (4, b.destPort), (16, b.sourceIPAddr), (16, b.destIPAddr),
    (8, b.sourceRequestId), (4, b.status)]

/-- `struct ionet_connect` after its header and up to the private data. -/
def bodyFields (b : ConnectBody) : Fields := fixedFields b ++ [(2, b.privateData.length)]

def payloadFields (p : ConnectPayload) : Fields :=
  [(2, p.sourceConnIndex), (2, p.destConnIndex), (1, p.version), (1, p.usingIOPort),
    (2, p.recFIFOId), (4, p.sourceBlockID), (4, p.myBridgeTorusAddress), (8, p.sourceUCI),
    (8, p.timestamp)]

/-- The packet buffer as `mudm_connect` and `mudm_conn_reply` fill it in, one region after the other:
the fixed fields, the private data behind them, and the payload of the driver at offset 256. -/
def connMessage (pktMsg : Memory) (body : ConnectBody) (payload : ConnectPayload) : Memory :=
  let msg2send := store pktMsg 0 (putFields (bodyFields body))
  let msg2send := store msg2send 54 body.privateData
  store msg2send 256 (putFields (payloadFields payload))

/-- The packet: 32 bytes of header, whose last 18 are software's, and the buffer. -/
def connPacket (hw : Memory) (hdr : IonetHeader) (pktMsg : Memory) : Memory := fun i =>
  if i < 32 then store hw 14 (putFields (headerFields hdr)) i else pktMsg (i - 32)

/-- The packet in the reception FIFO: its payload is `256 + sizeof(struct mudm_connect_payload)`
bytes, and behind it lies whatever came before. -/
def received (packet fifo : Memory) : Memory := fun i => if i < 32 + 288 then packet i else fifo i

def readHeader (m : Memory) : Option IonetHeader := do
  let f := getFields m 14 [2, 4, 4, 2, 2, 2, 2]
  let type ← MsgType.ofCode (f.getD 4 0)
  some ⟨f.getD 0 0, f.getD 1 0, f.getD 2 0, f.getD 3 0, type, f.getD 5 0, f.getD 6 0⟩

/-- What the callback finds behind the header, the private data as long as its length field says. -/
def readBody (m : Memory) : ConnectBody :=
  let f := getFields m 32 [4, 4, 16, 16, 8, 4, 2]
  ⟨f.getD 0 0, f.getD 1 0, f.getD 2 0, f.getD 3 0, f.getD 4 0, f.getD 5 0, load m 86 (f.getD 6 0)⟩

def readPayload (m : Memory) : ConnectPayload :=
  let f := getFields m 288 [2, 2, 1, 1, 2, 4, 4, 8, 8]
  ⟨f.getD 0 0, f.getD 1 0, f.getD 2 0, f.getD 3 0, f.getD 4 0, f.getD 5 0, f.getD 6 0, f.getD 7 0,
    f.getD 8 0⟩

def readConn (m : Memory) : Option (IonetHeader × ConnectBody × ConnectPayload) := do
  some (← readHeader m, readBody m, readPayload m)

/-- The fields have values that their widths can hold. -/
structure ConnFit (hdr : IonetHeader) (body : ConnectBody) (payload : ConnectPayload) : Prop where
  header : (headerFields hdr).Fit
  body : (fixedFields body).Fit
  payload : (payloadFields payload).Fit

def ConnectBody.withPrivate (b : ConnectBody) (data : List UInt8) : ConnectBody :=
  { b with privateData := data }

/-- The message that one node makes, as it lies in the reception FIFO of the other. -/
def arrived (pktMsg hw fifo : Memory) (hdr : IonetHeader) (body : ConnectBody)
    (payload : ConnectPayload) : Memory :=
  received (connPacket hw hdr (connMessage pktMsg body payload)) fifo

variable {pktMsg hw fifo m m' : Memory} {hdr : IonetHeader} {body : ConnectBody}
variable {payload : ConnectPayload} {data : List UInt8} {off n : Nat}

@[simp] theorem ofCode_code (t : MsgType) : MsgType.ofCode t.code = some t := by
  cases t <;> rfl

theorem bodyFit_withPrivate (h : (fixedFields body).Fit) (hd : data.length ≤ mudmMaxPrivateData) :
    (bodyFields (body.withPrivate data)).Fit := by
  have hlen : data.length < 256 ^ 2 := Nat.lt_of_le_of_lt hd (by decide)
  intro f hf
  rcases List.mem_append.mp hf with hf | hf
  · exact h f hf
  · rw [List.mem_singleton.mp hf]
    exact hlen

/-- The receiver's payload bytes are those of the sender's buffer, as far as they are sent. -/
theorem received_payload {i : Nat} (hi : 32 ≤ i) (hs : i < 320) :
    received (connPacket hw hdr m) fifo i = m (i - 32) := by
  rw [received, if_pos (by omega), connPacket, if_neg (by omega)]

theorem getFields_received {ws : List Nat} (hs : off + ws.sum ≤ 288) :
    getFields (received (connPacket hw hdr m) fifo) (32 + off) ws = getFields m off ws := by
  induction ws generalizing off with
  | nil => rfl
  | cons w ws ih =>
    simp only [List.sum_cons] at hs
    simp only [getFields]
    rw [Nat.add_assoc, ih (by omega)]
    congr 2
    refine List.map_congr_left fun i hi => ?_
    have := List.mem_range.mp hi
    rw [received_payload (by omega) (by omega)]
    congr 1
    omega

theorem readHeader_received (h : (headerFields hdr).Fit) :
    readHeader (received (connPacket hw hdr m) fifo) = some hdr := by
  have hg : getFields (received (connPacket hw hdr m) fifo) 14 [2, 4, 4, 2, 2, 2, 2] =
      (headerFields hdr).map Prod.snd := by
    have hput : getFields (store hw 14 (putFields (headerFields hdr))) 14 [2, 4, 4, 2, 2, 2, 2] =
        (headerFields hdr).map Prod.snd := getFields_putFields h
    rw [← hput]
    refine getFields_congr fun i hi hin => ?_
    simp only [List.sum_cons, List.sum_nil] at hin
    rw [received, if_pos (by omega), connPacket, if_pos (by omega)]
  simp only [readHeader, hg]
  simp [headerFields]

theorem arrived_payload {i : Nat} (hi : 32 ≤ i) (hs : i < 320) :
    arrived pktMsg hw fifo hdr body payload i = connMessage pktMsg body payload (i - 32) :=
  received_payload hi hs

theorem readPayload_arrived (h : (payloadFields payload).Fit) :
    readPayload (arrived pktMsg hw fifo hdr body payload) = payload := by
  have hg : getFields (arrived pktMsg hw fifo hdr body payload) (32 + 256)
      [2, 2, 1, 1, 2, 4, 4, 8, 8] = (payloadFields payload).map Prod.snd := by
    rw [arrived, getFields_received (by decide)]
    exact getFields_putFields h
  simp only [readPayload]
  rw [hg]
  rfl

/-- The fixed fields and the length of the private data are presented as they were passed. -/
theorem readBody_arrived (h : (bodyFields body).Fit) :
    readBody (arrived pktMsg hw fifo hdr body payload) = body.withPrivate
      (load (arrived pktMsg hw fifo hdr body payload) 86 body.privateData.length) := by
  let fixed := store pktMsg 0 (putFields (bodyFields body))
  have hput : getFields fixed 0 [4, 4, 16, 16, 8, 4, 2] = (bodyFields body).map Prod.snd :=
    getFields_putFields h
  have hpriv : getFields (store fixed 54 body.privateData) 0 [4, 4, 16, 16, 8, 4, 2] =
      getFields fixed 0 [4, 4, 16, 16, 8, 4, 2] := getFields_store_of_disjoint (Or.inl (by decide))
  have hmsg : getFields (connMessage pktMsg body payload) 0 [4, 4, 16, 16, 8, 4, 2] =
      getFields (store fixed 54 body.privateData) 0 [4, 4, 16, 16, 8, 4, 2] :=
    getFields_store_of_disjoint (Or.inl (by decide))
  have hg : getFields (arrived pktMsg hw fifo hdr body payload) (32 + 0) [4, 4, 16, 16, 8, 4, 2] =
      (bodyFields body).map Prod.snd := by
    rw [arrived, getFields_received (by decide), hmsg, hpriv, hput]
  rw [Nat.add_zero] at hg
  simp only [readBody]
  rw [hg]
  rfl

/-- Up to 202 bytes of private data end before the driver's payload begins. -/
theorem load_private (hd : body.privateData.length ≤ 202) :
    load (arrived pktMsg hw fifo hdr body payload) 86 body.privateData.length =
      body.privateData := by
  let fixed := store pktMsg 0 (putFields (bodyFields body))
  have hl : load (store fixed 54 body.privateData) 54 body.privateData.length = body.privateData :=
    load_store
  have hp : load (connMessage pktMsg body payload) 54 body.privateData.length =
      load (store fixed 54 body.privateData) 54 body.privateData.length :=
    load_store_of_disjoint (Or.inl (by omega))
  refine Eq.trans ?_ (hp.trans hl)
  refine List.map_congr_left fun i hi => ?_
  have := List.mem_range.mp hi
  rw [arrived_payload (by omega) (by omega)]
  congr 1
  omega

/-- Byte 202 of the private data lies where the driver's payload begins. -/
theorem private_byte_202 : arrived pktMsg hw fifo hdr body payload (86 + 202) =
    UInt8.ofNat (payload.sourceConnIndex / 256) := by
  rw [arrived_payload (by decide) (by decide)]
  rfl

theorem readConn_arrived (h : ConnFit hdr body payload)
    (hd : body.privateData.length ≤ mudmMaxPrivateData) :
    readConn (arrived pktMsg hw fifo hdr body payload) = some (hdr, body.withPrivate
      (load (arrived pktMsg hw fifo hdr body payload) 86 body.privateData.length), payload) := by
  have hhdr : readHeader (arrived pktMsg hw fifo hdr body payload) = some hdr :=
    readHeader_received h.header
  have hfit : (bodyFields body).Fit := bodyFit_withPrivate h.body hd
  simp only [readConn, hhdr, readPayload_arrived h.payload, readBody_arrived hfit]
  rfl

/-- Private data of a given length is presented as it was passed, whatever it is, exactly up to 202
bytes; the fixed fields and the driver's payload always are. -/
theorem private_data_presented_iff (h : ConnFit hdr body payload) {length : Nat}
    (hl : length ≤ mudmMaxPrivateData) :
    (∀ data : List UInt8, data.length = length →
      readConn (arrived pktMsg hw fifo hdr (body.withPrivate data) payload) =
        some (hdr, body.withPrivate data, payload)) ↔ length ≤ 202 := by
  have hread : ∀ data : List UInt8, data.length = length →
      readConn (arrived pktMsg hw fifo hdr (body.withPrivate data) payload) =
        some (hdr, body.withPrivate
          (load (arrived pktMsg hw fifo hdr (body.withPrivate data) payload) 86 length), payload) := by
    intro data hd
    have hfit : ConnFit hdr (body.withPrivate data) payload := ⟨h.header, h.body, h.payload⟩
    have hlen : (body.withPrivate data).privateData.length = length := hd
    rw [readConn_arrived hfit (hlen ▸ hl), hlen]
    rfl
  constructor
  · intro hall
    by_contra hgt
    -- private data whose byte 202 differs from what overwrites it
    let b : UInt8 := UInt8.ofNat (payload.sourceConnIndex / 256) + 1
    have hd : (List.replicate length b).length = length := List.length_replicate
    have he := (hread _ hd).symm.trans (hall _ hd)
    simp only [Option.some.injEq, Prod.mk.injEq, true_and, and_true] at he
    have hdata : load (arrived pktMsg hw fifo hdr (body.withPrivate (List.replicate length b))
        payload) 86 length = List.replicate length b := congrArg ConnectBody.privateData he
    have hbyte := congrArg (fun l => l.getD 202 0) hdata
    have hlt : 202 < length := by omega
    simp [load, hlt, private_byte_202, b] at hbyte
  · intro hle data hd
    have hlp : load (arrived pktMsg hw fifo hdr (body.withPrivate data) payload) 86 data.length =
        data := load_private (show data.length ≤ 202 by omega)
    rw [hread data hd, ← hd, hlp]

/-- A connection request of context 5, between the nodes 1 and 2. -/
def plainHeader : IonetHeader := ⟨5, 1, 2, 54, .connRequest, 3, mudmUnknownQpn⟩

def plainBody : ConnectBody := ⟨80, 4791, 0, 0, 0, 0, []⟩

def plainPayload : ConnectPayload := ⟨5, 0xffff, mudmVersion, 0x18, 0, 0, 0, 0, 0⟩

theorem plain_connFit : ConnFit plainHeader plainBody plainPayload := by
  refine ⟨?_, ?_, ?_⟩ <;> unfold Fields.Fit <;> decide

theorem private_data_presented_iff_plain :
    (∀ data : List UInt8, data.length = 203 →
      readConn (arrived (fun _ => 0) (fun _ => 0) (fun _ => 0) plainHeader
        (plainBody.withPrivate data) plainPayload) =
          some (plainHeader, plainBody.withPrivate data, plainPayload)) ↔ 203 ≤ 202 :=
  private_data_presented_iff plain_connFit (by decide)

/-- The last of 203 bytes of private data is presented as the high byte of the context's index. -/
theorem private_byte_overwritten :
    ¬ ∀ (pktMsg hw fifo : Memory) (hdr : IonetHeader) (body : ConnectBody)
      (payload : ConnectPayload) (data : List UInt8), ConnFit hdr body payload →
      data.length ≤ mudmMaxPrivateData →
      readConn (arrived pktMsg hw fifo hdr (body.withPrivate data) payload) =
        some (hdr, body.withPrivate data, payload) := by
  intro h
  obtain ⟨data, hlen, hlast⟩ : ∃ data : List UInt8, data.length = 203 ∧ data[202]? = some 1 :=
    ⟨List.replicate 203 1, List.length_replicate, by rw [List.getElem?_replicate]; rfl⟩
  have hfit : ConnFit plainHeader (plainBody.withPrivate data) plainPayload :=
    ⟨plain_connFit.header, plain_connFit.body, plain_connFit.payload⟩
  have hle : data.length ≤ mudmMaxPrivateData := by rw [hlen]; decide
  have he := h (fun _ => 0) (fun _ => 0) (fun _ => 0) plainHeader plainBody plainPayload data
    plain_connFit hle
  rw [readConn_arrived hfit hle] at he
  have hbyte := congrArg (fun r => r.map fun x => x.2.1.privateData[202]?) he
  simp only [Option.map_some, ConnectBody.withPrivate, hlen, hlast, load, List.getElem?_map,
    List.getElem?_range (show 202 < 203 by decide), Option.some.injEq] at hbyte
  rw [private_byte_202] at hbyte
  exact absurd hbyte (by decide)

end BgqVrnic
