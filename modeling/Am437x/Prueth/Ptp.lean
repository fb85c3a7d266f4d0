import Am437x.Lib.RefCount
import Am437x.Lib.Runs
import Am437x.Prueth.Device

/-!
# Packets waiting for a PTP timestamp (`prueth_core.c`)

Each port keeps a packet it sent, and a packet it cut through from the other port, for every kind of PTP
event until the firmware has the timestamp of its transmission. Packets are reference counted: the ledger
of the model has the references that the functions below take or receive, less those they release or hand
to the network stack.
-/

namespace Am437x.Prueth.Ptp

open RefCount

/-- `PRUETH_PTP_SYNC`, `PRUETH_PTP_DLY_REQ` and `PRUETH_PTP_DLY_RESP` -/
inductive PtpEvent where
  | sync
  | dlyReq
  | dlyResp
  deriving DecidableEq, Repr

instance : Fintype PtpEvent where
  elems := {.sync, .dlyReq, .dlyResp}
  complete := by
    intro event
    cases event <;> decide

/-- The arrays `ptp_skb` and `ptp_ct_skb` of a port. -/
inductive SlotKind where
  | ptpSkb
  | ptpCtSkb
  deriving DecidableEq, Repr

instance : Fintype SlotKind where
  elems := {.ptpSkb, .ptpCtSkb}
  complete := by
    intro kind
    cases kind <;> decide

abbrev Slot := Port × SlotKind × PtpEvent

/-- A packet buffer: one the stack sends, or the n-th one allocated by `emac_rx_packet`. -/
inductive Skb where
  | sent (n : Nat)
  | received (n : Nat)
  deriving DecidableEq, Repr

/-- Message types of PTP; `0xf` stands for a packet that is none. -/
abbrev PtpType := Fin 16

def ptpSyncMsgId : PtpType := 0x0
def ptpDlyReqMsgId : PtpType := 0x1
def ptpPdlyReqMsgId : PtpType := 0x2
def ptpPdlyRspMsgId : PtpType := 0x3
def ptpDlyRespMsgId : PtpType := 0x9

/-- `prueth_ptp_ts_event_type`; `none` is `PRUETH_PTP_TS_EVENTS`. -/
def pruethPtpTsEventType (ptpType : PtpType) : Option PtpEvent :=
  if ptpType = ptpSyncMsgId then some .sync
  else if ptpType = ptpDlyReqMsgId ∨ ptpType = ptpPdlyReqMsgId then some .dlyReq
  else if ptpType = ptpDlyRespMsgId ∨ ptpType = ptpPdlyRspMsgId then some .dlyResp
  else none

def eAgain : Int := -11
def eNomem : Int := -12
def eInval : Int := -22

/-- The slots of a port, in the order in which `emac_ndo_stop` goes through them. -/
def slotsOf (p : Port) : List Slot :=
  [PtpEvent.sync, PtpEvent.dlyReq, PtpEvent.dlyResp].flatMap fun event =>
    [(p, .ptpSkb, event), (p, .ptpCtSkb, event)]

/-- What `emac_rx_packet` sees of a frame, and whether the allocation of its buffer succeeds. -/
structure Frame where
  svFrame : Bool
  timestamp : Bool
  ptpType : PtpType
  allocOk : Bool
  deriving DecidableEq, Repr

structure State where
  hsr : Bool
  slot : Slot → Option Skb
  ledger : Ledger Skb
  ts : Port → PtpEvent → BitVec 64
  link : Port → Bool
  ptpTxEnable : Port → Bool
  ptpRxEnable : Port → Bool
  /-- How many buffers `emac_rx_packet` has allocated. -/
  allocated : Nat

namespace State

variable (s : State)

def ptpTxTsReset (p : Port) (event : PtpEvent) : State :=
  { s with ts := Function.update s.ts p (Function.update (s.ts p) event 0) }

/-- `dev_consume_skb_any` on the content of a slot, which does nothing with NULL. -/
def consume (skb : Option Skb) : State := { s with ledger := s.ledger.releaseOpt skb }

/-- `netif_receive_skb`: the reference goes to the stack. -/
def netifReceiveSkb (skb : Skb) : State := { s with ledger := s.ledger.release skb }

/-- `skb_get`, and the assignment to a slot. -/
def getAndStore (i : Slot) (skb : Skb) : State :=
  { s with ledger := s.ledger.take skb, slot := Function.update s.slot i (some skb) }

def clearSlot (i : Slot) : State := { s with slot := Function.update s.slot i none }

def ptpTsGet (p : Port) (event : PtpEvent) : BitVec 64 × State := (s.ts p event, s.ptpTxTsReset p event)

def pruethPtpTxTsEnqueue (p : Port) (skb : Skb) (ptpType : PtpType) : Int × State :=
  match pruethPtpTsEventType ptpType with
  | none => (eInval, s)
  | some event =>
    let i : Slot := (p, .ptpSkb, event)
    let s := if (s.slot i).isSome then (s.consume (s.slot i)).ptpTxTsReset p event else s
    (0, s.getAndStore i skb)

/-- `prueth_hsr_ptp_ct_tx_ts_enqueue`, for a packet received on the port `p`. -/
def pruethHsrPtpCtTxTsEnqueue (p : Port) (skb : Skb) (ptpType : PtpType) : Int × State :=
  let other := otherPort p
  if ptpType ≠ ptpSyncMsgId ∧ ptpType ≠ ptpDlyReqMsgId then (0, s)
  else
    match pruethPtpTsEventType ptpType with
    | none => (0, s) -- not a type that gets here
    | some event =>
      let (ns, s) := s.ptpTsGet other event
      if ns ≠ 0 ∨ !s.link other then (0, s)
      else
        let s :=
          if (s.slot (other, .ptpCtSkb, event)).isSome then
            (s.consume (s.slot (other, .ptpSkb, event))).ptpTxTsReset other event
          else s
        (eAgain, s.getAndStore (other, .ptpCtSkb, event) skb)

def pruethPtpTxTsGet (p : Port) (event : PtpEvent) : State :=
  match s.slot (p, .ptpSkb, event) with
  | some skb =>
    let s := s.clearSlot (p, .ptpSkb, event)
    let (_, s) := s.ptpTsGet p event
    s.consume (some skb)
  | none =>
    match s.slot (p, .ptpCtSkb, event) with
    | some skb =>
      let s := s.clearSlot (p, .ptpCtSkb, event)
      let (_, s) := s.ptpTsGet p event
      s.netifReceiveSkb skb
    | none => s

/-- `emac_rx_packet`, as far as it owns the buffer of the frame. -/
def emacRxPacket (p : Port) (frame : Frame) : Int × State :=
  if !frame.allocOk then (eNomem, s)
  else
    let skb := Skb.received s.allocated
    let s := { s with ledger := s.ledger.take skb, allocated := s.allocated + 1 }
    if frame.svFrame then (0, s.consume (some skb))
    else if s.ptpRxEnable p ∧ frame.timestamp ∧ s.hsr then
      let (ret, s) := s.pruethHsrPtpCtTxTsEnqueue p skb frame.ptpType
      if ret = eAgain then (0, s) else (0, s.netifReceiveSkb skb)
    else (0, s.netifReceiveSkb skb)

/-- One slot in the loop of `emac_ndo_stop`. -/
def flushSlot (i : Slot) : State :=
  if (s.slot i).isSome then
    ((s.ptpTxTsReset i.1 i.2.2).consume (s.slot i)).clearSlot i
  else s

def emacNdoStop (p : Port) : State :=
  (slotsOf p).foldl flushSlot { s with
    ptpTxEnable := Function.update s.ptpTxEnable p false
    ptpRxEnable := Function.update s.ptpRxEnable p false }

end State

/-! ## The device in use -/

/-- No packet waits, and no reference is owned. -/
def State.start (hsr : Bool) : State where
  hsr := hsr
  slot := fun _ => none
  ledger := Ledger.empty
  ts := fun _ _ => 0
  link := fun _ => false
  ptpTxEnable := fun _ => false
  ptpRxEnable := fun _ => false
  allocated := 0

inductive Event where
  | ptpTxTsEnqueue (p : Port) (n : Nat) (ptpType : PtpType)
  | rxPacket (p : Port) (frame : Frame)
  | ptpTxTsGet (p : Port) (event : PtpEvent)
  | ndoStop (p : Port)
  | stamp (p : Port) (event : PtpEvent) (ns : BitVec 64)
  | link (p : Port) (up : Bool)
  | hwtstamp (p : Port) (tx rx : Bool)
  deriving DecidableEq, Repr

def step (s : State) : Event → Option State
  | .ptpTxTsEnqueue p n ptpType => some (s.pruethPtpTxTsEnqueue p (.sent n) ptpType).2
  | .rxPacket p frame => some (s.emacRxPacket p frame).2
  | .ptpTxTsGet p event => some (s.pruethPtpTxTsGet p event)
  | .ndoStop p => some (s.emacNdoStop p)
  | .stamp p event ns =>
    some { s with ts := Function.update s.ts p (Function.update (s.ts p) event ns) }
  | .link p up => some { s with link := Function.update s.link p up }
  | .hwtstamp p tx rx =>
    some { s with
      ptpTxEnable := Function.update s.ptpTxEnable p tx
      ptpRxEnable := Function.update s.ptpRxEnable p rx }

/-- References are counted exactly: each waiting packet has a reference owned by its slot, none was
released twice, and none is left when both ports are stopped. -/
structure State.Counted (s : State) : Prop where
  sound : Sound s.ledger s.slot
  not_twice : s.ledger.overReleased = false
  none_left : ∀ p, ((s.emacNdoStop p).emacNdoStop (otherPort p)).ledger = Ledger.empty

/-- A frame received on the port `p` is one that the other port cuts through, with its timestamp still
to come: a Sync or Delay_Req, no timestamp in the register, and link on the other port. -/
def State.AwaitsCutThrough (s : State) (p : Port) (ptpType : PtpType) : Prop :=
  (ptpType = ptpSyncMsgId ∨ ptpType = ptpDlyReqMsgId) ∧
  (∀ event, pruethPtpTsEventType ptpType = some event → s.ts (otherPort p) event = 0) ∧
  s.link (otherPort p) = true

/-- The frame is stored until the other port has sent it. -/
def State.Stores (s : State) (p : Port) (frame : Frame) : Prop :=
  (frame.allocOk = true ∧ frame.svFrame = false) ∧
  (s.ptpRxEnable p = true ∧ frame.timestamp = true ∧ s.hsr = true) ∧
  s.AwaitsCutThrough p frame.ptpType

/-- No frame is stored for the other port to send. -/
def NoFrameStored (s : State) (e : Event) (_ : State) : Prop :=
  ∀ p frame, e = .rxPacket p frame → ¬ s.Stores p frame

end Am437x.Prueth.Ptp
