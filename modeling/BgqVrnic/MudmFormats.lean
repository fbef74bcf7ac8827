import BgqVrnic.FlightPrint

namespace BgqVrnic

open Prints

/-- Of the 256 bits of the data, the first being the most significant, `width` from the given one on. -/
def FlightEntry.bits (log : FlightEntry) (first width : Nat) : Nat :=
  (((log.data0 * 2 ^ 64 + log.data1) * 2 ^ 64 + log.data2) * 2 ^ 64 + log.data3) / 2 ^ (256 - first - width) %
    2 ^ width

/-- `parse_node2string`, whose target is never too small. -/
def parseNode2string (nodeAddr : Nat) : String :=
  if nodeAddr = 2 ^ 32 - 1 then "(unknown)"
  else
    "(" ++ toString (nodeAddr / 2 ^ 24 % 64) ++ " " ++ toString (nodeAddr / 2 ^ 18 % 64) ++ " " ++
      toString (nodeAddr / 2 ^ 12 % 64) ++ " " ++ toString (nodeAddr / 2 ^ 6 % 64) ++ " " ++
      toString (nodeAddr % 64) ++ ")"

def opcodes : List String :=
  ["and", "or", "xor", "invalid", "unsigned add", "unsigned min", "unsigned max", "invalid", "signed add",
    "signed min", "signed max", "invalid", "floating point add", "floating point min", "floating point max",
    "invalid"]

section Formats

variable (env : PrintEnv) (logentry : FlightEntry)

def rawPiece : Piece := env.counted " raw: %016llx %016llx %016llx %016llx" logentry.args

/-- The torus port by which a packet comes back from an I/O node. -/
def portPiece : List Piece :=
  match logentry.bits 19 2 with
  | 1 => [env.counted " Port6 " []]
  | 2 => [env.counted " Port7 " []]
  | 3 => [env.counted " Port10" []]
  | _ => []

def mudmParseConnectState : List Piece :=
  let state := logentry.bits 0 16
  [env.counted "MUDM Connect State=%d my_index=%d remote_rec_FIFO_Id=%x local_rec_FIFO_Id=%x remote_BlockID=%d "
      [.num (if state < 2 ^ 15 then state else state + 2 ^ 32 - 2 ^ 16), .num (logentry.bits 16 16),
        .num (logentry.bits 32 16), .num (logentry.bits 48 16), .num (logentry.bits 64 32)],
    env.counted " destination=%s  remote_bridgingCNnode=%s"
      [.str (parseNode2string (logentry.bits 96 32)), .str (parseNode2string (logentry.bits 160 32))]] ++
  (match logentry.bits 208 8 with
    | 0x08 => [env.counted " io_port=Port6 " []]
    | 0x10 => [env.counted " io_port=Port7 " []]
    | 0x18 => [env.counted " io_port=Port10" []]
    | _ => []) ++
  [rawPiece env logentry]

def mudmParseInjNetHdr : List Piece :=
  [env.uncounted
    "MUDM inject network header from PhysicalAddr=0x%llx for %ld bytes.  FIFO map=0x%llx  %s"
    [.num (logentry.bits 64 64), .num (logentry.bits 128 64), .num (logentry.bits 192 64),
      .str (if logentry.bits 63 1 ≠ 0 then "Interrupt_Packet" else "Non-Interrupt_Packet")]]

def mudmParseC0BCASTRDMA : List Piece :=
  [env.uncounted
    "MUDM bcast from node %s class_route=%llu, local_status_address=0x%llx, local_status_value=%llu"
    [.str (parseNode2string (logentry.data0 % 2 ^ 32)), .num logentry.data1, .num logentry.data2,
      .num logentry.data3]]

/-- The texts for a packet of this type: its name, what stands before its sequence number if that is printed, and
what stands before its length. -/
def packetTexts (type : Nat) : String × Option String × String :=
  match type with
  | 0x5544 => ("MUDM_DPUT           ", some "rget_seq#=", "userLength=")
  | 0x1bc1 => ("MUDM_PKT_DATA_IMM   ", some "sequence#=", "userLength=")
  | 0x88b1 => ("MUDM_PKT_DATA_REMOTE", some "sequence#=", "userLength=")
  | 0x1bc0 => ("MUDM_IP_IMMED       ", some "sequence#=", "userLength=")
  | 0x88b0 => ("MUDM_IP_REMOTE      ", some "sequence#=", "userLength=")
  | 0x1bc2 => ("MUDM_CONN_REQUEST   ", none, "userLength=")
  | 0x1bc3 => ("MUDM_CONN_REPLY     ", none, "userLength=")
  | 0xdddd => ("MUDM_DISCONNECTED   ", some "context-index=", "disc-key=")
  | 0x1aa1 => ("MUDM_CNK2CNK_FIFO   ", some "sequence#=", "userLength=")
  | 0x4444 => ("MUDM_RDMA_READ      ", some "sequence#=", "userLength=")
  | 0x5555 => ("MUDM_RDMA_WRITE     ", some "sequence#=", "userLength=")
  | 0xe000 => ("MUDM_PKT_ERROR      ", some "sequence#=", "typeRejected=")
  | 0xe06b => ("MUDM_PKT_ENOTCONN   ", some "sequence#=", "typeRejected=")
  | 0xe054 => ("MUDM_PKT_EILSEQ     ", some "sequence#=", "typeRejected=")
  | _ => ("!!UNKNOWN", some "sequence#=", "userLength=")

/-- A compute node or, with the high bit on, an I/O node. -/
def nodeType (node : Nat) : String := if node / 2 ^ 31 % 2 ≠ 0 then "IO" else "CN"

/-- `MUDM_parsePK` of a packet that goes to a memory FIFO. -/
def memoryFifoPieces : List Piece :=
  let source := logentry.bits 128 32
  let dest := logentry.bits 160 32
  let texts := packetTexts (logentry.bits 208 16)
  let nodes := [.str texts.1, .str (nodeType source), .str (parseNode2string source), .str (nodeType dest),
    .str (parseNode2string dest)]
  [match texts.2.1 with
    | some start => env.counted " %s %s%s==>%s%s %s%d %s%d"
        (nodes ++ [.str start, .num (logentry.bits 112 16), .str texts.2.2, .num (logentry.bits 192 16)])
    | none => env.counted " %s %s%s==>%s%s %s0x%x"
        (nodes ++ [.str texts.2.2, .num (logentry.bits 192 16)]),
    env.counted " Rec_FIFO_Id=%d" [.num (logentry.bits 97 9)],
    if logentry.bits 23 1 ≠ 0 then env.counted " Interrupt_Packet" []
    else env.counted " Non-Interrupt_Packet" []]

/-- `MUDM_parsePK` of a packet that is put; the mask is a decimal number in the source. -/
def putPieces : List Piece :=
  let temp_targ_phy := logentry.bits 107 5 * 2 ^ 32 + logentry.bits 112 32
  [env.counted " >>RDMA DIRECTPUT counter=%llx" [.num (logentry.data3 &&& 0xFFFFFFFF8)],
    if temp_targ_phy &&& 1000000000 ≠ 0 then
      env.counted " dest@=%llx dest-atomic-op=%llx"
        [.num (temp_targ_phy &&& 0xFFFFFFFF8), .num (temp_targ_phy &&& 0x7)]
    else env.counted " dest@=%llx " [.num temp_targ_phy]]

/-- The QP numbers, for the types of packets that have them. -/
def qpPieces : List Piece :=
  match logentry.bits 208 16 with
  | 0x1bc1 | 0x88b1 | 0x1bc3 | 0xdddd | 0x4444 | 0x5555 =>
    [env.counted " sQP=%d dQP=%d" [.num (logentry.bits 224 16), .num (logentry.bits 240 16)]]
  | 0x1bc2 => [env.counted " sQP=%d" [.num (logentry.bits 224 16)]]
  | _ => []

def mudmParsePK : List Piece :=
  [env.counted "MUDM inject MU packet header: " []] ++
  (match logentry.bits 64 2 with
    | 0 => memoryFifoPieces env logentry
    | 1 => putPieces env logentry
    | _ => [env.counted " !!Unexpected Packet Type" []]) ++
  portPiece env logentry ++
  [env.counted " VC=%d  MUPKT=%s "
    [.num (logentry.bits 24 3), .str (parseNode2string (logentry.bits 32 32))]] ++
  qpPieces env logentry ++
  [rawPiece env logentry]

def bcastTypeString (type : Nat) : Option String :=
  match type with
  | 0xf588 => some "MUDM_RDY_RDMA_BCAST "
  | 0xf544 => some "MUDM_CLR_RDMA_BCAST "
  | 0xf501 => some "MUDM_REDUCE_ONE     "
  | 0xf50f => some "MUDM_REDUCE_ALL     "
  | 0xf5b0 => some "MUDM_REDUCE_BCAST_ORIGIN "
  | 0xf5bf => some "MUDM_REDUCE_BCAST_FINISH "
  | _ => none

def classRoutePiece : List Piece :=
  if logentry.bits 0 8 = 0x5a then [env.counted " Class_Route=%d" [.num (logentry.bits 16 4)]] else []

/-- What `MUDM_parsePKbcast` prints of the kind of collective operation; the raw data go over it. -/
def collectivePiece : Piece :=
  let opcode := logentry.bits 8 4
  let args := [.num opcode, .str (opcodes.getD opcode ""), .num (1 <<< (logentry.bits 12 4 + 2)),
    .num (logentry.bits 24 3)]
  match logentry.bits 27 2 with
  | 2 => env.uncounted " AllReduce opCode=%0x(%s) wordLength=%d VC=%d " args
  | 3 => env.uncounted " Reduce opCode=%0x(%s) wordLength=%d VC=%d MUPKT=>%s "
      (args ++ [.str (parseNode2string (logentry.bits 32 32))])
  | _ => env.uncounted " VC=%d " [.num (logentry.bits 24 3)]

def mudmParsePKbcast : List Piece :=
  [env.counted "MUDM bcast packet: " [],
    match bcastTypeString (logentry.bits 208 16) with
    | some typeString => env.counted " %s  %s%d %s%d"
        [.str typeString, .str "sequence#=", .num (logentry.bits 112 16), .str "userLength=",
          .num (logentry.bits 192 16)]
    | none => env.counted " %s  %s0x%x"
        [.str "!!UNKNOWN", .str "userLength=", .num (logentry.bits 192 16)]] ++
  classRoutePiece env logentry ++
  [env.counted " Rec_FIFO_Id=%d" [.num (logentry.bits 97 9)]] ++
  portPiece env logentry ++
  [env.counted " VC=%d MUPKT=%s " [.num (logentry.bits 24 3), .str (parseNode2string (logentry.bits 32 32))],
    if logentry.bits 23 1 ≠ 0 then env.counted " Interrupt_Packet" []
    else env.counted " Non-Interrupt_Packet" [],
    collectivePiece env logentry,
    rawPiece env logentry]

/-- The first of the two pieces with the destination is put where the second one goes. -/
def mudmParseDirectPut : List Piece :=
  let temp_targ_phy := logentry.bits 107 5 * 2 ^ 32 + logentry.bits 112 32
  [env.counted "MUDM directput packet: " []] ++
  classRoutePiece env logentry ++
  portPiece env logentry ++
  [env.counted " VC=%d MUPKT=>%s " [.num (logentry.bits 24 3), .str (parseNode2string (logentry.bits 32 32))],
    env.counted " >>dest_batId=%d" [.num (logentry.bits 96 10)],
    env.counted " Counter_batId=%d" [.num (logentry.bits 150 10)],
    env.uncounted " dest@=%llx" [.num (temp_targ_phy &&& 0xFFFFFFFF8)],
    if temp_targ_phy &&& 0x1000000000 ≠ 0 then
      env.counted " dest@=%llx dest-atomic-op=%0llx"
        [.num (temp_targ_phy &&& 0xFFFFFFFF8), .num (temp_targ_phy &&& 0x7)]
    else env.counted " dest@=%llx" [.num (temp_targ_phy &&& 0xFFFFFFFFF)],
    env.counted " >>counter@=%llx" [.num (logentry.data3 &&& 0xFFFFFFFF8)],
    env.counted " counterType=%llx" [.num (logentry.data3 &&& 0x07)],
    rawPiece env logentry]

def mudmReceiveFifoInfo : List Piece :=
  let hwfifo := logentry.data0
  let fifo := env.hwfifo hwfifo
  [env.counted "hwfifo=%p  va_start=%p subgroupID=%llu rec_fifo_id=%llu " logentry.args] ++
  if hwfifo ≠ 0 then
    [env.counted " hwfifo: pa_start=%llx, size=%llx, pa_head=%llx pa_tail=%llx"
      [.num fifo.1, .num (fifo.2.1 + 1), .num fifo.2.2.1, .num fifo.2.2.2]]
  else []

def mudmInjectFifoInfo : List Piece :=
  let hwfifo := logentry.data0
  let hw_injfifo := logentry.data1
  let fifo := env.hwfifo hwfifo
  let injfifo := env.hwInjfifo hw_injfifo
  [env.counted "hwfifo=%p hw_injfifo=%p va_start=%p init_subgroup_id[i]=%llu " logentry.args] ++
  (if hwfifo ≠ 0 then
    [env.counted " hwfifo: pa_start=%llx, size=0x%llx, pa_head=0x%llx pa_tail=0x%llx"
      [.num fifo.1, .num (fifo.2.1 + 1), .num fifo.2.2.1, .num fifo.2.2.2]]
  else []) ++
  if hw_injfifo ≠ 0 then
    [env.counted " hw_injfifo: descCount=%llu freeSpace=%llu " [.num injfifo.1, .num injfifo.2]]
  else []

end Formats

/-- The functions that the table names. -/
inductive MudmFormat
  | formatFunction
  | parseConnectState
  | parseInjNetHdr
  | parseC0BCASTRDMA
  | parsePK
  | parsePKbcast
  | parseDirectPut
  | personalityInfo
  | receiveFifoInfo
  | injectFifoInfo
  deriving DecidableEq, Repr, Inhabited

/-- `STANDARD`, `FLIGHTPRINT` and `FLIGHTFUNCT` -/
inductive FlightlogRow
  | standard (name : String)
  | print (name format : String)
  | funct (name : String) (function : MudmFormat)
  deriving DecidableEq, Repr

def format4byHex16 : String := "MUDM raw: %016llx %016llx %016llx %016llx"

def flightlog : List FlightlogRow :=
  [.funct "MU_INJNETHDR" .parseInjNetHdr,
    .funct "PK_INJHEADER" .parsePK,
    .funct "MF_INJHEADER" .parsePK,
    .funct "DP_INJHEADER" .parseDirectPut,
    .funct "PK_RCVHEADER" .parsePK,
    .print "C0_RDMACOUNT"
      "MUDM requestID=%llx, rdmaObject(counter)=%llx,localConnect=%llx, error=%lld",
    .print "C0_RDMASTUCK"
      "MUDM requestID=%llx, rdmaObject(counter)=%llx,localConnect=%llx, error=%lld",
    .funct "MF_INJBCAST_" .parsePKbcast,
    .funct "RD_INJBCAST_" .parsePKbcast,
    .funct "PK_RCVBCAST_" .parsePKbcast,
    .funct "DP_BCASTRDMA" .parseDirectPut,
    .print "RQ_BCASTRDMA"
      "MUDM bcast requestID=%llx, dest_payload_paddr=0x%llx, source_payload_paddr=0x%llx, payload_length=%llu",
    .funct "C0_BCASTRDMA" .parseC0BCASTRDMA,
    .funct "DB_MF_TMPLAT" .parsePK,
    .funct "DB_DP_TMPLAT" .parseDirectPut,
    .funct "DB_RGETDP_TM" .parseDirectPut,
    .funct "CN_STATUS___" .parseConnectState,
    .funct "DB_NH__STUCK" .parseInjNetHdr,
    .funct "DB_PK__STUCK" .parsePK,
    .print "DB_IFIFO_PTR" "inject fifo: va_start=%llx va_end=%llx va_head=%llx va_tail=%llx",
    .print "DB_IFIFO_NUM"
      "inject fifo: descCount=%llu, freeSpace=%0llx, Max numDescriptors=%llu,Undone Descriptors=%llu",
    .print "DB_RAWPKTDTA" "RAW: %016llx %016llx %016llx %016llx",
    .standard "CN_RCV_PAYLO",
    .standard "CN_INJ_PAYLO",
    .standard "CN_GETFREE__",
    .funct "CN_STARTING_" .parseConnectState,
    .standard "CN_START_ERR",
    .standard "CN_DISC__ERR",
    .funct "CN_FREED_CTX" .parseConnectState,
    .funct "CN_DISC_INDI" .parsePK,
    .standard "CN_BDCALLBAK",
    .standard "CN_CONNLISTS",
    .print "DM_INITDONE_"
      "MUDM initialization completed at line %ld, protocol version %ld.  %ld links, contextptr=%p",
    .print "DM_TERMSTART"
      "MUDM termination started at line %ld, protocol version %ld.  %ld links, contextptr=%p",
    .print "IO_LINKRESET"
      "MUDM link reset starting.  i=%llu input BLOCKID=%llu remote_BlockID[i]=%llu link4reset[i]=%llu",
    .print "IO_LINKRSETC"
      "MUDM link reset complete.  i=%llu input BLOCKID=%llu remote_BlockID[i]=%llu link4reset[i]=%llu",
    .print "MU_PKT_2POLL"
      "MUDM poll start request pktd=%p, ccontext=%p, desc_count=%llu, pktd->req_id=%p",
    .print "MU_PKT_PCOMP"
      "MUDM poll completion pktd=%p, ccontext=%p, desc_count=%llu, pktd->req_id=%p",
    .print "MU_STUCK_PKT"
      "MUDM stuck packet.  PacketPostedAtTime=%lx  CurrentTime=%lx  Context=%lx  ReqID=%lx",
    .standard "DM_ERROR_HIT",
    .print "CN_CALL_READ"
      "MUDM RDMA Read  remote_requestID=%p requestID=%p rdma_object=%p.  Tranferring %llu bytes",
    .print "CN_CALLWRITE"
      "MUDM RDMA Write remote_requestID=%p  ccontext=%p rdma_object=%p.  Tranferring %llu bytes",
    .print "RQ_CANCELED_" "Request canceled errno=%llu type=%llu, ccontext=%p, requestID=%p",
    .funct "CN_TOOK2LONG" .parsePK,
    .print "DM_WKUP_EXIT"
      "MUDM wakeup poll completed at line %ld, protocol version %ld.  %ld links, contextptr=%p",
    .print "DM_USEC_DIFF"
      "time difference %lld microseconds line= %ld cyclesstart=%lld cyclesend=%lld",
    .funct "DM_PERS_INFO" .personalityInfo,
    .funct "DB_RECF_INFO" .receiveFifoInfo,
    .funct "DB_INJF_INFO" .injectFifoInfo,
    .print "DB_RESETTO_0" "Line=%llu, value was=%llu, ccontext=%p, ccontext_index=%llu",
    .print "DB_RECVBADRC" "rc=%ld, -rc=%ld, type=%lx, line=%llu"]

def FlightlogRow.formatString : FlightlogRow → String
  | .print _ format => format
  | _ => format4byHex16

/-- `MUDM_formatFunction` -/
def mudmFormatFunction (env : PrintEnv) (logentry : FlightEntry) : List Piece :=
  let formats := "Invalid flight recorder entry" :: flightlog.map FlightlogRow.formatString
  [env.counted (formats.getD logentry.id "") logentry.args]

def MudmFormat.pieces (env : PrintEnv) : MudmFormat → FlightEntry → List Piece
  | .formatFunction => mudmFormatFunction env
  | .parseConnectState => mudmParseConnectState env
  | .parseInjNetHdr => mudmParseInjNetHdr env
  | .parseC0BCASTRDMA => mudmParseC0BCASTRDMA env
  | .parsePK => mudmParsePK env
  | .parsePKbcast => mudmParsePKbcast env
  | .parseDirectPut => mudmParseDirectPut env
  | .personalityInfo => fun _ => []
  | .receiveFifoInfo => mudmReceiveFifoInfo env
  | .injectFifoInfo => mudmInjectFifoInfo env

def FlightlogRow.formatter (env : PrintEnv) : FlightlogRow → FlightFormatter
  | .standard name => ⟨name, .printf, format4byHex16, MudmFormat.formatFunction.pieces env⟩
  | .print name format => ⟨name, .printf, format, MudmFormat.formatFunction.pieces env⟩
  | .funct name function => ⟨name, .func, format4byHex16, function.pieces env⟩

/-- `MUDM_FLIGHTLOG_FMT`; its first formatter has no function. -/
def mudmFlightlogFmt (env : PrintEnv) (id : Nat) : FlightFormatter :=
  (⟨"FL_INVALD", .printf, "Invalid flight recorder entry", fun _ => []⟩ ::
    flightlog.map (FlightlogRow.formatter env)).getD id ⟨"", .other, "", fun _ => []⟩

end BgqVrnic
