import AllProjects.Memory.CString
import AllProjects.Memory.Records
import AllProjects.Memory.Scan
import AllProjects.Transition.Run

/-!
# Printed routes

Two programs print the routes in netlink messages. Both keep the texts of a destination and of a
gateway in two arrays, and write one of them when they come across the attribute. `route_monitor`
clears the arrays in front of the messages of a buffer, but not between them; `route_dump` does not
clear them at all.

So a message without a gateway is printed with the gateway of the last message that had one, or with
what was on the stack. The monitor is right about a buffer exactly if no message that it prints
lacks an attribute that an earlier one has, and the dump about a message exactly if both are there.

That the macros of the kernel's headers walk over messages and attributes is no assumption here: it
is what `RecordKind.walk_eq_foldl` says of them.
-/

namespace AllProjects.NetlinkSocket

/-! ## Constants -/

/-- `NLMSG_OK` and `NLMSG_NEXT`. -/
def nlmsg : RecordKind := ⟨4, 16, by decide⟩

/-- `RTA_OK` and `RTA_NEXT`. -/
def rta : RecordKind := ⟨2, 4, by decide⟩

def nlmsgDone : ℕ := 3
def rtmNewroute : ℕ := 24
def rtmDelroute : ℕ := 25
def rtaDst : ℕ := 1
def rtaGateway : ℕ := 5
def rtTableMain : ℕ := 254
def rtmgrpIpv4Route : ℕ := 64

/-- `BUFFER_SIZE` -/
def bufferSize : ℕ := 4095

/-! ## The programs -/

/-- A `char[32]`. -/
structure Text where
  bytes : List UInt8
  size : bytes.length = 32

/-- `inet_ntop` into such an array: the text and its NUL, if they fit. -/
def Text.put (dst : Text) (text : List UInt8) : Text :=
  if h : text.length < 32 then
    { bytes := text ++ 0 :: dst.bytes.drop (text.length + 1)
      size := by
        rw [List.length_append, List.length_cons, List.length_drop, dst.size]
        omega }
  else dst

/-- What `%s` prints of it, or `none` when it goes on behind the array. -/
def Text.shown (t : Text) : Option (List UInt8) := cstring t.bytes

/-- After `bzero`. -/
def Text.zeros : Text := ⟨List.replicate 32 0, List.length_replicate⟩

/-- `destination_address` and `gateway_address`. -/
structure Addresses where
  destinationAddress : Text
  gatewayAddress : Text

/-- `rta_type` of the attribute at an address. -/
def rtaType (m : Mem) (a : ℕ) : ℕ := m.load (a + 2) 2

/-- The body of the loop over the attributes, but for what the dump prints there. -/
def readAttribute (m : Mem) (t : Addresses) (a : ℕ) : Addresses :=
  let t := if rtaType m a = rtaDst then
      { t with destinationAddress := t.destinationAddress.put (inetNtop (m.slice (a + 4) 4)) }
    else t
  if rtaType m a = rtaGateway then
    { t with gatewayAddress := t.gatewayAddress.put (inetNtop (m.slice (a + 4) 4)) }
  else t

/-- The fields of a printed route. -/
structure Route where
  destination : Option (List UInt8)
  netmask : ℕ
  protocol : ℕ
  gateway : Option (List UInt8)
  deriving DecidableEq, Repr

/-- What the programs print. -/
inductive Line
  | deleting (route : Route)
  | adding (route : Route)
  | attributeType (rtaType : ℕ)
  | route (route : Route)
  deriving DecidableEq, Repr

/-- The route that is printed for the message at an address. -/
def routeAt (m : Mem) (nlh : ℕ) (t : Addresses) : Route :=
  { destination := t.destinationAddress.shown
    netmask := m.load (nlh + 16 + 1) 1
    protocol := m.load (nlh + 16 + 5) 1
    gateway := t.gatewayAddress.shown }

/-- The lines of the monitor for a type of message. -/
def linesOf (nlmsgType : ℕ) (route : Route) : List Line :=
  (if nlmsgType = rtmDelroute then [.deleting route] else [])
    ++ if nlmsgType = rtmNewroute then [.adding route] else []

/-- The loop over the attributes of the message at an address: `RTM_RTA` and `RTM_PAYLOAD`. -/
def walkAttributes {σ : Type} (m : Mem) (body : σ → ℕ → σ) (nlh : ℕ) : σ → σ :=
  rta.walk m body (nlh + 16 + 12) ((nlmsg.recordLen m nlh : ℤ) - 28)

/-- The body of the loop over the messages. -/
def readMessage (m : Mem) (s : Addresses × List Line) (nlh : ℕ) : Addresses × List Line :=
  let t := walkAttributes m (readAttribute m) nlh s.1
  (t, s.2 ++ linesOf (m.load (nlh + 4) 2) (routeAt m nlh t))

/-- `loop` behind `recv`. -/
def printRoutes (buffer : Mem) (receivedBytes : ℤ) : List Line :=
  (nlmsg.walk buffer (readMessage buffer) 0 receivedBytes (⟨.zeros, .zeros⟩, [])).2

/-- The calls of `recv`: the buffer and the number of bytes received, no buffer when a call fails,
or nothing when it does not return. -/
def receive (nlGroups : ℕ) (buffer : Mem) : List (Option (List UInt8)) → Option (Option (Mem × ℕ))
  | [] => none
  | none :: _ => some none
  | some data :: recvs =>
    let data := data.take bufferSize
    let buffer := buffer.storeBytes 0 data
    if buffer.load 4 2 = nlmsgDone ∨ nlGroups = rtmgrpIpv4Route then
      some (some (buffer, data.length))
    else receive nlGroups buffer recvs

/-- `loop` of the monitor: what it prints. -/
def loop (nlGroups : ℕ) (recvs : List (Option (List UInt8))) : Option (List Line) :=
  (receive nlGroups (fun _ ↦ 0) recvs).map fun r ↦ match r with
    | none => []
    | some (buffer, receivedBytes) => printRoutes buffer receivedBytes

/-- `rtnl_print_route`, with what is in the arrays when it is called. -/
def rtnlPrintRoute (m : Mem) (nlh : ℕ) (t : Addresses) : List Line :=
  if m.load (nlh + 16 + 4) 1 ≠ rtTableMain then []
  else
    let s := walkAttributes m (fun (s : Addresses × List Line) a ↦
      (readAttribute m s.1 a, s.2 ++ [.attributeType (rtaType m a)])) nlh (t, [])
    s.2 ++ [.route (routeAt m nlh s.1)]

/-! ## Messages -/

/-- An attribute of a route. An address has at least its four bytes. -/
structure RtAttr where
  rtaType : ℕ
  data : List UInt8
  address : rtaType = rtaDst ∨ rtaType = rtaGateway → 4 ≤ data.length

/-- A route message, with the fields that are read. -/
structure RouteMsg where
  nlmsgType : ℕ
  rtmDstLen : ℕ
  rtmTable : ℕ
  rtmProtocol : ℕ
  attrs : List RtAttr

/-- The attribute is in memory at an address. -/
def RtAttr.At (m : Mem) (x : RtAttr) (a : ℕ) : Prop :=
  NetlinkSocket.rtaType m a = x.rtaType ∧ rta.recordLen m a = 4 + x.data.length
    ∧ m.slice (a + 4) x.data.length = x.data

/-- The message is in memory at an address: its header, the `struct rtmsg` and its attributes. -/
def RouteMsg.At (m : Mem) (x : RouteMsg) (nlh : ℕ) : Prop :=
  m.load (nlh + 4) 2 = x.nlmsgType ∧ m.load (nlh + 16 + 1) 1 = x.rtmDstLen
    ∧ m.load (nlh + 16 + 4) 1 = x.rtmTable ∧ m.load (nlh + 16 + 5) 1 = x.rtmProtocol
    ∧ 28 ≤ nlmsg.recordLen m nlh
    ∧ rta.Holds m (RtAttr.At m) (nlh + 16 + 12)
      ((nlmsg.recordLen m nlh : ℤ) - 28) x.attrs

instance (m : Mem) (x : RtAttr) (a : ℕ) : Decidable (x.At m a) :=
  inferInstanceAs (Decidable (_ ∧ _ ∧ _))

instance (m : Mem) (x : RouteMsg) (nlh : ℕ) : Decidable (x.At m nlh) :=
  inferInstanceAs (Decidable (_ ∧ _ ∧ _ ∧ _ ∧ _ ∧ _))

/-! ## What a printed route is for -/

/-- The two addresses of a route. -/
inductive Which
  | destination
  | gateway
  deriving DecidableEq

instance : Fintype Which := ⟨{.destination, .gateway}, fun w ↦ by cases w <;> decide⟩

/-- The type of its attribute. -/
def Which.rtaType : Which → ℕ
  | .destination => rtaDst
  | .gateway => rtaGateway

namespace RouteMsg

variable (x : RouteMsg)

/-- There is such an attribute. -/
def Has (w : Which) : Prop := ∃ attr ∈ x.attrs, attr.rtaType = w.rtaType

/-- The text of an attribute, if it is of the type. -/
def textOf (w : Which) (attr : RtAttr) : Option (List UInt8) :=
  if attr.rtaType = w.rtaType then some (inetNtop (attr.data.take 4)) else none

/-- The text of the last attribute of the type. -/
def text (w : Which) : Option (List UInt8) := (x.attrs.filterMap (textOf w)).getLast?

/-- The route as the attributes of the message say, with nothing for one that is missing. -/
def own : Route :=
  { destination := (x.text .destination).or (some [])
    netmask := x.rtmDstLen
    protocol := x.rtmProtocol
    gateway := (x.text .gateway).or (some []) }

/-- The lines of the monitor for this message. -/
def ownLines : List Line := linesOf x.nlmsgType x.own

/-- The monitor prints the message. -/
def Printed : Prop := x.nlmsgType = rtmDelroute ∨ x.nlmsgType = rtmNewroute

/-- A message that is printed has the attributes of an earlier one. -/
def Covers (y : RouteMsg) : Prop := x.Printed → ∀ w, y.Has w → x.Has w

instance (w : Which) : Decidable (x.Has w) :=
  inferInstanceAs (Decidable (∃ attr ∈ x.attrs, attr.rtaType = w.rtaType))

instance : Decidable x.Printed := inferInstanceAs (Decidable (_ ∨ _))

instance (y : RouteMsg) : Decidable (x.Covers y) := inferInstanceAs (Decidable (_ → ∀ _, _ → _))

end RouteMsg

/-- No message that is printed lacks an attribute that an earlier one has. -/
def NoneInherits (ms : List RouteMsg) : Prop := ms.Pairwise fun y x ↦ x.Covers y

instance (ms : List RouteMsg) : Decidable (NoneInherits ms) :=
  inferInstanceAs (Decidable (ms.Pairwise _))

/-! ## The arrays -/

/-- What is printed of one of the arrays. -/
def Addresses.shown (t : Addresses) : Which → Option (List UInt8)
  | .destination => t.destinationAddress.shown
  | .gateway => t.gatewayAddress.shown

theorem Text.shown_put (dst : Text) {text : List UInt8} (h0 : 0 ∉ text) (hlen : text.length < 32) :
    (dst.put text).shown = some text := by
  rw [shown, put, dif_pos hlen]
  exact cstring_append_zero h0 _

theorem Text.shown_zeros : Text.zeros.shown = some [] := rfl

/-- The body of the loop over the attributes, for an attribute of the list. -/
def store (t : Addresses) (attr : RtAttr) : Addresses :=
  let t := if attr.rtaType = rtaDst then
      { t with
        destinationAddress := t.destinationAddress.put (inetNtop (attr.data.take 4)) }
    else t
  if attr.rtaType = rtaGateway then
    { t with gatewayAddress := t.gatewayAddress.put (inetNtop (attr.data.take 4)) }
  else t

section

variable {m : Mem} {nlh a : ℕ} {attr : RtAttr} {w : Which} {t : Addresses} {x : RouteMsg}

/-- An address is in the attribute, and its text fits into the array. -/
theorem RtAttr.take_spec (h : attr.rtaType = w.rtaType) :
    (attr.data.take 4).length = 4 ∧ (inetNtop (attr.data.take 4)) ≠ []
      ∧ (inetNtop (attr.data.take 4)).length < 32 := by
  have haddress : 4 ≤ attr.data.length := by
    apply attr.address
    rw [h]
    cases w
    · exact Or.inl rfl
    · exact Or.inr rfl
  have hlen : (attr.data.take 4).length = 4 := by
    rw [List.length_take, Nat.min_eq_left haddress]
  have hne : attr.data.take 4 ≠ [] := List.ne_nil_of_length_pos (by omega)
  obtain ⟨hpos, hlt⟩ := length_inetNtop hne
  exact ⟨hlen, List.ne_nil_of_length_pos hpos, by omega⟩

theorem RtAttr.At.slice_eq (hat : attr.At m a) (h : attr.rtaType = w.rtaType) :
    m.slice (a + 4) 4 = attr.data.take 4 := by
  obtain ⟨hlen, -⟩ := RtAttr.take_spec h
  rw [List.length_take] at hlen
  obtain ⟨rest, hrest⟩ := Nat.exists_eq_add_of_le (show 4 ≤ attr.data.length by omega)
  have hdata := hat.2.2
  rw [hrest, Mem.slice_add] at hdata
  rw [← hdata, List.take_left' (Mem.length_slice ..)]

theorem readAttribute_eq (hat : attr.At m a) : readAttribute m t a = store t attr := by
  rw [readAttribute, store, hat.1]
  by_cases hdst : attr.rtaType = rtaDst
  · rw [hat.slice_eq (w := .destination) hdst]
  by_cases hgateway : attr.rtaType = rtaGateway
  · rw [hat.slice_eq (w := .gateway) hgateway]
  · simp only [hdst, hgateway, if_false]

theorem text_fits (h : attr.rtaType = w.rtaType) (dst : Text) :
    (dst.put (inetNtop (attr.data.take 4))).shown = some (inetNtop (attr.data.take 4)) := by
  obtain ⟨-, -, hlen⟩ := RtAttr.take_spec h
  exact Text.shown_put dst (zero_not_mem_inetNtop _) hlen

theorem shown_store (t : Addresses) (attr : RtAttr) (w : Which) :
    (store t attr).shown w = ((RouteMsg.textOf w attr).map some).getD (t.shown w) := by
  rw [RouteMsg.textOf]
  by_cases h : attr.rtaType = w.rtaType
  · rw [if_pos h, Option.map_some, Option.getD_some]
    cases w with
    | destination =>
      have hother : attr.rtaType ≠ rtaGateway := by
        rw [h]
        decide
      rw [store, if_pos (show attr.rtaType = rtaDst from h), if_neg hother]
      exact text_fits h _
    | gateway =>
      rw [store, if_pos (show attr.rtaType = rtaGateway from h)]
      exact text_fits h _
  · rw [if_neg h, Option.map_none, Option.getD_none, store]
    cases w with
    | destination =>
      rw [if_neg (show attr.rtaType ≠ rtaDst from h)]
      split <;> rfl
    | gateway =>
      rw [if_neg (show attr.rtaType ≠ rtaGateway from h)]
      split <;> rfl

end

namespace RouteMsg

/-! ## What a message leaves in the arrays -/

variable (x : RouteMsg) {y : RouteMsg} {t : Addresses} {w : Which}

/-- The arrays behind the loop over the attributes. -/
def after (t : Addresses) : Addresses := x.attrs.foldl store t

/-- The route that is printed with what is in the arrays then. -/
def routeWith (t : Addresses) : Route :=
  { destination := t.shown .destination
    netmask := x.rtmDstLen
    protocol := x.rtmProtocol
    gateway := t.shown .gateway }

/-- A message that is printed finds nothing in the arrays where it writes nothing. -/
def Unaffected (t : Addresses) : Prop := x.Printed → ∀ w, x.Has w ∨ t.shown w = some []

variable {x}

theorem text_eq_none (h : ¬ x.Has w) : x.text w = none := by
  rw [text, List.getLast?_eq_none_iff, List.filterMap_eq_nil_iff]
  intro attr hmem
  exact if_neg fun htype ↦ h ⟨attr, hmem, htype⟩

theorem exists_text (h : x.Has w) : ∃ l, x.text w = some l ∧ l ≠ [] := by
  obtain ⟨attr, hmem, htype⟩ := h
  have hne : x.attrs.filterMap (textOf w) ≠ [] :=
    List.ne_nil_of_mem (List.mem_filterMap.mpr ⟨attr, hmem, if_pos htype⟩)
  refine ⟨_, List.getLast?_eq_some_getLast hne, ?_⟩
  obtain ⟨attr', -, htext⟩ := List.mem_filterMap.mp (List.getLast_mem hne)
  rw [textOf] at htext
  split at htext
  · rename_i htype'
    obtain ⟨-, hnil, -⟩ := RtAttr.take_spec htype'
    rw [← Option.some.inj htext]
    exact hnil
  · cases htext

/-- The last attribute of a type counts, and what was there if there is none. -/
theorem shown_after (t : Addresses) (w : Which) :
    (x.after t).shown w = ((x.text w).map some).getD (t.shown w) := by
  rw [after, foldl_field (Addresses.shown · w) (fun s attr ↦ shown_store s attr w), text]
  rw [← List.getLast?_map, List.map_filterMap]

theorem shown_after_of_has (h : x.Has w) : (x.after t).shown w = (x.text w).or (some []) := by
  obtain ⟨l, hl, -⟩ := exists_text h
  rw [shown_after, hl]
  rfl

theorem shown_after_of_not_has (h : ¬ x.Has w) : (x.after t).shown w = t.shown w := by
  rw [shown_after, text_eq_none h]
  rfl

theorem shown_after_eq_nil :
    (x.after t).shown w = some [] ↔ ¬ x.Has w ∧ t.shown w = some [] := by
  by_cases h : x.Has w
  · obtain ⟨l, hl, hne⟩ := exists_text h
    rw [shown_after, hl]
    refine iff_of_false ?_ (fun hand ↦ hand.1 h)
    exact fun heq ↦ hne (Option.some.inj heq)
  · rw [shown_after_of_not_has h]
    exact (and_iff_right h).symm

/-- The address is the message's own if it has the attribute or there is nothing in the array. -/
theorem shown_after_eq_own :
    (x.after t).shown w = (x.text w).or (some []) ↔ x.Has w ∨ t.shown w = some [] := by
  by_cases h : x.Has w
  · exact iff_of_true (shown_after_of_has h) (Or.inl h)
  · rw [shown_after_of_not_has h, text_eq_none h, Option.none_or]
    exact (or_iff_right h).symm

theorem routeWith_eq_own_iff : x.routeWith (x.after t) = x.own
    ↔ ∀ w, x.Has w ∨ t.shown w = some [] := by
  constructor
  · intro heq w
    rw [← shown_after_eq_own]
    cases w with
    | destination => exact congrArg Route.destination heq
    | gateway => exact congrArg Route.gateway heq
  · intro h
    rw [routeWith, own, shown_after_eq_own.mpr (h .destination),
      shown_after_eq_own.mpr (h .gateway)]

theorem linesOf_inj {r r' : Route} :
    linesOf x.nlmsgType r = linesOf x.nlmsgType r' ↔ (x.Printed → r = r') := by
  rw [linesOf, linesOf, Printed]
  by_cases hdel : x.nlmsgType = rtmDelroute
  · have hnew : x.nlmsgType ≠ rtmNewroute := by
      rw [hdel]
      decide
    simp [hdel, rtmDelroute, rtmNewroute]
  · by_cases hnew : x.nlmsgType = rtmNewroute
    · simp [hnew, rtmDelroute, rtmNewroute]
    · simp [hdel, hnew]

theorem length_linesOf (nlmsgType : ℕ) (r r' : Route) :
    (linesOf nlmsgType r).length = (linesOf nlmsgType r').length := by
  rw [linesOf, linesOf]
  split_ifs <;> rfl

theorem lines_eq_own_iff :
    linesOf x.nlmsgType (x.routeWith (x.after t)) = x.ownLines ↔ x.Unaffected t := by
  rw [ownLines, linesOf_inj, routeWith_eq_own_iff]
  exact Iff.rfl

theorem unaffected_after : y.Unaffected (x.after t) ↔ y.Covers x ∧ y.Unaffected t := by
  rw [Unaffected, Unaffected, Covers, ← imp_and, ← forall_and]
  refine imp_congr_right fun _ ↦ forall_congr' fun w ↦ ?_
  rw [shown_after_eq_nil]
  tauto

/-! ## The messages of a buffer -/

/-- What the monitor prints for messages. -/
def printed : Addresses → List RouteMsg → List Line
  | _, [] => []
  | t, x :: ms => linesOf x.nlmsgType (x.routeWith (x.after t)) ++ printed (x.after t) ms

/-- **Each message is printed as its own exactly if it is unaffected by what was there and by those
in front of it.** -/
theorem printed_eq_own_iff (t : Addresses) (ms : List RouteMsg) :
    printed t ms = ms.flatMap ownLines ↔ NoneInherits ms ∧ ∀ x ∈ ms, x.Unaffected t := by
  induction ms generalizing t with
  | nil => exact iff_of_true rfl ⟨List.Pairwise.nil, List.forall_mem_nil _⟩
  | cons x ms ih =>
    have hlen : (linesOf x.nlmsgType (x.routeWith (x.after t))).length = x.ownLines.length :=
      length_linesOf _ _ _
    have happend : printed t (x :: ms) = (x :: ms).flatMap ownLines
        ↔ x.Unaffected t ∧ printed (x.after t) ms = ms.flatMap ownLines := by
      rw [printed, List.flatMap_cons, ← lines_eq_own_iff]
      exact ⟨fun h ↦ List.append_inj h hlen, fun h ↦ by rw [h.1, h.2]⟩
    have hrest : (∀ y ∈ ms, y.Unaffected (x.after t))
        ↔ (∀ y ∈ ms, y.Covers x) ∧ ∀ y ∈ ms, y.Unaffected t := by
      rw [← forall₂_and]
      exact forall₂_congr fun y _ ↦ unaffected_after
    rw [happend, ih, hrest, NoneInherits, NoneInherits, List.pairwise_cons, List.forall_mem_cons]
    tauto

theorem unaffected_zeros (x : RouteMsg) : x.Unaffected ⟨.zeros, .zeros⟩ := by
  intro _ w
  cases w
  · exact Or.inr Text.shown_zeros
  · exact Or.inr Text.shown_zeros

theorem foldl_eq_printed (t : Addresses) (out : List Line) (ms : List RouteMsg) :
    (ms.foldl (fun s x ↦ (x.after s.1, s.2 ++ linesOf x.nlmsgType (x.routeWith (x.after s.1))))
      (t, out)).2 = out ++ printed t ms := by
  induction ms generalizing t out with
  | nil => exact (List.append_nil out).symm
  | cons x ms ih => rw [List.foldl_cons, ih, printed, List.append_assoc]

end RouteMsg

/-! ## The messages in memory -/

section

variable {m : Mem} {nlh : ℕ} {t : Addresses} {x : RouteMsg}

theorem walkAttributes_eq_after (hat : x.At m nlh) :
    walkAttributes m (readAttribute m) nlh t = x.after t := by
  obtain ⟨-, -, -, -, -, hattrs⟩ := hat
  have hbody : ∀ t attr a, RtAttr.At m attr a → readAttribute m t a = store t attr :=
    fun _ _ _ h ↦ readAttribute_eq h
  exact RecordKind.walk_eq_foldl hbody hattrs t

theorem routeAt_eq (hat : x.At m nlh) : routeAt m nlh t = x.routeWith t := by
  rw [routeAt, hat.2.1, hat.2.2.2.1]
  rfl

theorem printRoutes_eq {receivedBytes : ℤ} {ms : List RouteMsg}
    (hms : nlmsg.Holds m (RouteMsg.At m) 0 receivedBytes ms) :
    printRoutes m receivedBytes = RouteMsg.printed ⟨.zeros, .zeros⟩ ms := by
  have hbody : ∀ (s : Addresses × List Line) x nlh, RouteMsg.At m x nlh → readMessage m s nlh
      = (x.after s.1, s.2 ++ linesOf x.nlmsgType (x.routeWith (x.after s.1))) := by
    intro s x nlh hat
    rw [readMessage, walkAttributes_eq_after hat, routeAt_eq hat, hat.1]
  rw [printRoutes, RecordKind.walk_eq_foldl hbody hms]
  exact RouteMsg.foldl_eq_printed _ [] ms

theorem loop_eq {nlGroups : ℕ} {recvs : List (Option (List UInt8))} {buffer : Mem}
    {receivedBytes : ℕ} {ms : List RouteMsg}
    (hrecv : receive nlGroups (fun _ ↦ 0) recvs = some (some (buffer, receivedBytes)))
    (hms : nlmsg.Holds buffer (RouteMsg.At buffer) 0 receivedBytes ms) :
    loop nlGroups recvs = some (RouteMsg.printed ⟨.zeros, .zeros⟩ ms) := by
  rw [loop, hrecv, Option.map_some, ← printRoutes_eq hms]

theorem foldl_eq_after (t : Addresses) (out : List Line) (attrs : List RtAttr) :
    attrs.foldl (fun s attr ↦ (store s.1 attr, s.2 ++ [Line.attributeType attr.rtaType])) (t, out)
      = (attrs.foldl store t, out ++ attrs.map (Line.attributeType ·.rtaType)) := by
  induction attrs generalizing t out with
  | nil => rw [List.map_nil, List.append_nil, List.foldl_nil, List.foldl_nil]
  | cons attr attrs ih =>
    rw [List.foldl_cons, List.foldl_cons, ih, List.map_cons, List.append_assoc]
    rfl

/-- The dump prints the types of the attributes too, which are the message's own. -/
theorem rtnlPrintRoute_eq (hat : x.At m nlh) : rtnlPrintRoute m nlh t
    = if x.rtmTable = rtTableMain then
        x.attrs.map (Line.attributeType ·.rtaType) ++ [.route (x.routeWith (x.after t))]
      else [] := by
  obtain ⟨-, -, htable, -, -, hattrs⟩ := id hat
  have hbody : ∀ (s : Addresses × List Line) attr a, RtAttr.At m attr a →
      (readAttribute m s.1 a, s.2 ++ [Line.attributeType (rtaType m a)])
        = (store s.1 attr, s.2 ++ [.attributeType attr.rtaType]) := by
    intro s attr a h
    rw [readAttribute_eq h, h.1]
  rw [rtnlPrintRoute, htable, walkAttributes, RecordKind.walk_eq_foldl hbody hattrs, foldl_eq_after]
  by_cases hmain : x.rtmTable = rtTableMain
  · rw [if_neg (not_not_intro hmain), if_pos hmain]
    dsimp only
    rw [routeAt_eq hat]
    rfl
  · rw [if_pos hmain, if_neg hmain]

end

/-! ## Whose route is printed -/

theorem RouteMsg.loop_alone {nlGroups : ℕ} {recvs : List (Option (List UInt8))} {buffer : Mem}
    {receivedBytes : ℕ} {x : RouteMsg}
    (hrecv : receive nlGroups (fun _ ↦ 0) recvs = some (some (buffer, receivedBytes)))
    (hx : nlmsg.Holds buffer (RouteMsg.At buffer) 0 receivedBytes [x]) :
    loop nlGroups recvs = some x.ownLines := by
  rw [loop_eq hrecv hx, printed, lines_eq_own_iff.mpr (unaffected_zeros x)]
  exact congrArg some (List.append_nil _)

/-- One byte in front of a NUL. -/
def Text.one : Text := Text.zeros.put [49]

theorem RouteMsg.dump_own_iff {x : RouteMsg} {m : Mem} {nlh : ℕ} (hat : x.At m nlh) :
    (∀ m' nlh' t t', x.At m' nlh' → rtnlPrintRoute m nlh t = rtnlPrintRoute m' nlh' t')
      ↔ (x.rtmTable = rtTableMain → ∀ w, x.Has w) := by
  constructor
  · intro h hmain w
    by_contra hnot
    have heq := h m nlh ⟨.zeros, .zeros⟩ ⟨.one, .one⟩ hat
    rw [rtnlPrintRoute_eq hat, rtnlPrintRoute_eq hat, if_pos hmain, if_pos hmain] at heq
    have hroute := Line.route.inj (List.singleton_inj.mp (List.append_cancel_left heq))
    have hshown : (x.after ⟨.zeros, .zeros⟩).shown w = (x.after ⟨.one, .one⟩).shown w := by
      cases w with
      | destination => exact congrArg Route.destination hroute
      | gateway => exact congrArg Route.gateway hroute
    rw [shown_after_of_not_has hnot, shown_after_of_not_has hnot] at hshown
    cases w <;> exact absurd hshown (by decide)
  · intro h m' nlh' t t' hat'
    rw [rtnlPrintRoute_eq hat, rtnlPrintRoute_eq hat']
    by_cases hmain : x.rtmTable = rtTableMain
    · have hown : ∀ t, x.routeWith (x.after t) = x.own :=
        fun t ↦ routeWith_eq_own_iff.mpr fun w ↦ Or.inl (h hmain w)
      rw [hown, hown]
    · rw [if_neg hmain, if_neg hmain]

/-- **Each route is printed as its own** by the monitor exactly if no message that it prints lacks
an address that an earlier one of the buffer has, and by the dump exactly if the message is of
another table or has both. -/
theorem routes_own_iff {nlGroups : ℕ} {recvs : List (Option (List UInt8))} {buffer : Mem}
    {receivedBytes : ℕ} {ms : List RouteMsg}
    (hrecv : receive nlGroups (fun _ ↦ 0) recvs = some (some (buffer, receivedBytes)))
    (hms : nlmsg.Holds buffer (RouteMsg.At buffer) 0 receivedBytes ms) :
    (loop nlGroups recvs = some (ms.flatMap RouteMsg.ownLines) ↔ NoneInherits ms)
      ∧ ∀ (m : Mem) (nlh : ℕ) (x : RouteMsg), x.At m nlh →
        ((∀ m' nlh' t t', x.At m' nlh' → rtnlPrintRoute m nlh t = rtnlPrintRoute m' nlh' t')
          ↔ (x.rtmTable = rtTableMain → ∀ w, x.Has w)) := by
  refine ⟨?_, fun m nlh x hat ↦ RouteMsg.dump_own_iff hat⟩
  rw [loop_eq hrecv hms, Option.some_inj, RouteMsg.printed_eq_own_iff]
  exact and_iff_left fun x _ ↦ RouteMsg.unaffected_zeros x

/-! ## Two buffers -/

/-- 10.0.0.0/8 by way of 10.0.0.1, as it is sent and as it is meant. -/
def gatewayBytes : List UInt8 :=
  [44, 0, 0, 0, 24, 0, 0, 0, 0, 0, 0, 0, 0, 0, 0, 0, 2, 8, 0, 0, 254, 3, 0, 1, 0, 0, 0, 0,
    8, 0, 1, 0, 10, 0, 0, 0, 8, 0, 5, 0, 10, 0, 0, 1]

def gatewayRoute : RouteMsg :=
  ⟨24, 8, 254, 3, [⟨rtaDst, [10, 0, 0, 0], by decide⟩, ⟨rtaGateway, [10, 0, 0, 1], by decide⟩]⟩

/-- 11.0.0.0/8 without a gateway. -/
def linkBytes : List UInt8 :=
  [36, 0, 0, 0, 24, 0, 0, 0, 0, 0, 0, 0, 0, 0, 0, 0, 2, 8, 0, 0, 254, 2, 0, 253, 0, 0, 0, 0,
    8, 0, 1, 0, 11, 0, 0, 0]

def linkRoute : RouteMsg := ⟨24, 8, 254, 2, [⟨rtaDst, [11, 0, 0, 0], by decide⟩]⟩

theorem receive_bytes {data : List UInt8} (h : data.length ≤ bufferSize) :
    receive rtmgrpIpv4Route (fun _ ↦ 0) [some data]
      = some (some (Mem.storeBytes (fun _ ↦ 0) 0 data, data.length)) := by
  rw [receive, List.take_of_length_le h]
  exact if_pos (Or.inr rfl)

theorem holds_linkBytes : nlmsg.Holds (Mem.storeBytes (fun _ ↦ 0) 0 (linkBytes ++ gatewayBytes))
    (RouteMsg.At (Mem.storeBytes (fun _ ↦ 0) 0 (linkBytes ++ gatewayBytes))) 0
    (linkBytes ++ gatewayBytes).length [linkRoute, gatewayRoute] := by
  decide +kernel

/-- The route without a gateway comes first, and both are printed as they are. -/
theorem routes_own_iff_link : loop rtmgrpIpv4Route [some (linkBytes ++ gatewayBytes)]
    = some ([linkRoute, gatewayRoute].flatMap RouteMsg.ownLines) :=
  (routes_own_iff (receive_bytes (by decide)) holds_linkBytes).1.mpr (by decide)

theorem holds_gatewayBytes :
    nlmsg.Holds (Mem.storeBytes (fun _ ↦ 0) 0 (gatewayBytes ++ linkBytes))
      (RouteMsg.At (Mem.storeBytes (fun _ ↦ 0) 0 (gatewayBytes ++ linkBytes))) 0
      (gatewayBytes ++ linkBytes).length [gatewayRoute, linkRoute] := by
  decide +kernel

/-- The other way round it is printed with the gateway of the first; and the dump prints it with
whatever is in the array. -/
theorem not_routes_own :
    (loop rtmgrpIpv4Route [some (gatewayBytes ++ linkBytes)] = some
        [.adding ⟨some (ascii "10.0.0.0"), 8, 3, some (ascii "10.0.0.1")⟩,
          .adding ⟨some (ascii "11.0.0.0"), 8, 2, some (ascii "10.0.0.1")⟩])
      ∧ loop rtmgrpIpv4Route [some (gatewayBytes ++ linkBytes)]
        ≠ some ([gatewayRoute, linkRoute].flatMap RouteMsg.ownLines)
      ∧ linkRoute.At (Mem.storeBytes (fun _ ↦ 0) 0 linkBytes) 0
      ∧ rtnlPrintRoute (Mem.storeBytes (fun _ ↦ 0) 0 linkBytes) 0 ⟨.zeros, .zeros⟩
        ≠ rtnlPrintRoute (Mem.storeBytes (fun _ ↦ 0) 0 linkBytes) 0 ⟨.one, .one⟩ := by
  have hprinted := loop_eq (receive_bytes (by decide)) holds_gatewayBytes
  have hat : linkRoute.At (Mem.storeBytes (fun _ ↦ 0) 0 linkBytes) 0 := by decide +kernel
  refine ⟨?_, ?_, hat, ?_⟩
  · rw [hprinted]
    decide +kernel
  · rw [hprinted]
    decide +kernel
  · rw [rtnlPrintRoute_eq hat, rtnlPrintRoute_eq hat]
    decide +kernel

end AllProjects.NetlinkSocket
