/-
Whether a sidecar hashes with the extranonce the server checks with.

# Who assigns one

The server tells an extranonce in two ways: in the answer to a
subscription, where it is always the handler's own, and after an
authorization with an address, where it is the one derived from it. What a
share is checked with is the entry's, which only an authorization changes.
The proxy keeps the last one it hears.

# The invariant

A ghost lists the requests served. `OnLine` says that the proxy, once it
has read all that is on its way (`Link.coming`), has the extranonce last
assigned among them, and the entry the one last derived. The proxy knows
the answer to a subscription by its id alone, so `tracked` has the answers
on their way with their ids; and what is captured with a share is
what the proxy still has when the server reads it.
-/
import M1n3Protocol.Sidecar.Session
import M1n3Protocol.Proofs.Forwarding

namespace M1n3Protocol.Sidecar

open Checked Client

variable {H : HashFn} {cfg : M1n3Protocol.Config} {addr : SocketAddr}

-- ================================================= statement vocabulary

/-- The extranonce an authorization makes of its address. -/
def StratumRequest.derives (r : StratumRequest) : Option Text :=
  if r.method = "mining.authorize".toList then derivedFrom r.params else none

/-- The extranonce the server tells for a request. -/
def StratumRequest.assigns (original : Text) (r : StratumRequest) :
    Option Text :=
  if r.method = "mining.subscribe".toList then some original else r.derives

/-- What was told last. -/
def lastAssigned (original : Text) (served : List StratumRequest) :
    Option Text :=
  (served.filterMap fun r => r.assigns original).getLast?

/-- What shares are checked with. -/
def held (original : Text) (served : List StratumRequest) : Text :=
  (served.filterMap StratumRequest.derives).getLast?.getD original

/-- What was told last is what shares are checked with. -/
def InStep (original : Text) (served : List StratumRequest) : Prop :=
  ∃ en1, lastAssigned original served = some en1
    ∧ Hex.decode en1 = Hex.decode (held original served)

/-- The requests served, in order. -/
def servedLog (s : Link) : Link.Event → Link → List StratumRequest →
    List StratumRequest
  | .read, s', served =>
      if s'.reading then
        served ++ (s.toServer.head?.bind fun r => parseRequest r.msg).toList
      else served
  | _, _, served => served

-- ============================================================= on the way

/-- The extranonce in a line. -/
def Line.assigns : Line → Option Text
  | .reply _ (.subscribed extranonce1) => some extranonce1
  | .setExtranonce extranonce1 => some extranonce1
  | _ => none

/-- Of an answer, its id, and whether it is a subscription's. -/
def Line.tag : Line → Option (Option U64 × Bool)
  | .reply id (.subscribed _) => some (id.asU64, true)
  | .reply id _ => some (id.asU64, false)
  | _ => none

/-- The same, of the answer to come. -/
def Request.tag (r : Request) : Option (Option U64 × Bool) :=
  (parseRequest r.msg).map fun request =>
    (request.id.asU64, request.method = "mining.subscribe".toList)

/-- Whether the server will tell an extranonce for it. -/
def Request.assigns (r : Request) : Bool :=
  (parseRequest r.msg).any fun request => (request.assigns []).isSome

def Request.submits (r : Request) : Bool :=
  (parseRequest r.msg).any fun request =>
    request.method = "mining.submit".toList

def Link.dueLines (s : Link) (addr : SocketAddr) : List Line :=
  s.due.flatMap fun d => d.lines s.server addr

/-- The lines written, or to be written for the request at hand. -/
def Link.lines (s : Link) (addr : SocketAddr) : List Line :=
  s.toProxy ++ s.dueLines addr

/-- The extranonces on their way. -/
def Link.coming (s : Link) (addr : SocketAddr) : List Text :=
  (s.lines addr).filterMap Line.assigns

/-- The answers on their way, and those to come. -/
def Link.tags (s : Link) (addr : SocketAddr) : List (Option U64 × Bool) :=
  (s.lines addr).filterMap Line.tag ++ s.toServer.filterMap Request.tag

/-- Whether the miner may send a line. An id is not used while a
subscription with it waits; a subscription is one for the proxy as well,
has an id that no answer to come has, and is the only one; and a share
waits for all extranonces. -/
def sends (addr : SocketAddr) (s : Link) (msg : Json) : Bool :=
  match parseRequest msg with
  | none => msg.method ≠ some "mining.subscribe".toList
  | some request =>
      if request.method = "mining.subscribe".toList then
        msg.method = some request.method ∧ msg.id = request.id.asU64
          ∧ msg.id.isSome ∧ s.proxy.subscribeId = none
          ∧ (s.tags addr).all fun t => t.1 ≠ msg.id
      else
        msg.method ≠ some "mining.subscribe".toList
          ∧ (request.id.asU64 = none
            ∨ request.id.asU64 ≠ s.proxy.subscribeId)
          ∧ (request.method = "mining.submit".toList →
            s.coming addr = [] ∧ s.toServer.all fun q => !q.assigns)

def orderlyLink (addr : SocketAddr) (s : Link) : Link.Event → Bool
  | .fromMiner msg => sends addr s msg
  | _ => true

-- =============================================================== the entry

/-- What the handler reads of its entry for an extranonce. -/
def entry (s : ServerState) (addr : SocketAddr) : Option (Text × Bool) :=
  (s.miners addr).map fun m => (m.extranonce1, m.suiAddress.isSome)

theorem entry_setMiner_of_ne {s : ServerState} {who : SocketAddr}
    {m : Option MinerState} (h : who ≠ addr) :
    entry (s.setMiner who m) addr = entry s addr := by
  unfold entry ServerState.setMiner
  dsimp only
  rw [if_neg h.symm]

theorem entry_of_miners {s s' : ServerState} (h : s'.miners = s.miners) :
    entry s' addr = entry s addr := by
  rw [entry, h, entry]

theorem entry_credit (s : ServerState) (who : SocketAddr) :
    entry (s.credit who).1 addr = entry s addr := by
  unfold ServerState.credit
  split
  case h_1 => rfl
  case h_2 m hm =>
      by_cases heq : who = addr
      · subst heq
        unfold entry ServerState.setMiner
        dsimp only
        rw [if_pos rfl, hm]
        rfl
      · exact entry_setMiner_of_ne heq

/-- A share leaves the extranonces alone. -/
theorem entry_validate (s : ServerState) (who : SocketAddr)
    (share : ShareSubmission) :
    entry (validateAndSubmitShare H cfg s who share).1 addr
      = entry s addr := by
  unfold validateAndSubmitShare
  split
  case h_1 => rfl
  case h_2 => rfl
  case h_3 key m _ => exact entry_of_miners (noteBlock_miners m)
  case h_4 key m _ =>
      dsimp only
      rw [entry_credit]
      refine entry_of_miners ?_
      rw [queueShare_miners, noteBlock_miners]
      rfl

/-- Only its own handler touches an entry's extranonce. -/
theorem entry_step {s s' : ServerState} {e : M1n3Protocol.Event}
    (hown : ownEvent addr e = false) (hs : s.step H cfg e = .ok s') :
    entry s' addr = entry s addr := by
  cases e with
  | poll template due => exact entry_of_miners (polled_frame hs).miners
  | registered tpda => exact entry_of_miners (registered_miners hs)
  | connect who random =>
      cases hs
      exact entry_setMiner_of_ne (of_decide_eq_false hown)
  | disconnect who =>
      cases hs
      exact entry_setMiner_of_ne (of_decide_eq_false hown)
  | authorize who params =>
      cases hs
      exact entry_setMiner_of_ne (of_decide_eq_false hown)
  | submit who params =>
      cases hs
      exact entry_validate s who _
  | globalDifficulty =>
      cases hs
      rfl
  | difficultyFloor newFloor =>
      cases hs
      unfold entry
      dsimp only
      rw [Option.map_map]
      congr 1
      funext m
      unfold raiseDifficulty
      dsimp only [Function.comp]
      generalize (if newFloor < 1 then 1 else newFloor) = safeFloor
      split <;> rfl
  | recv => exact entry_of_miners (recv_miners hs)
  | tick =>
      cases hs
      exact entry_of_miners flush_miners

-- ============================================================== the lines

/-- A text that is hex is the extranonce from now on. -/
def hear (extranonce1 : Bytes) (hex : Text) : Bytes :=
  (Hex.decode hex).getD extranonce1

theorem setExtranonce1_hear (p : Proxy) (hex : Option Text) :
    p.setExtranonce1 hex
      = { p with extranonce1 := hex.toList.foldl hear p.extranonce1 } := by
  cases hex with
  | none => rfl
  | some cs =>
      unfold Proxy.setExtranonce1
      rw [Option.bind_some, Option.toList_some, List.foldl_cons,
        List.foldl_nil, hear]
      cases Hex.decode cs <;> rfl

/-- What the proxy goes by when it reads a line. -/
structure Hears (p p' : Proxy) (line : Line) : Prop where
  extranonce1 : p'.extranonce1
    = line.assigns.toList.foldl hear p.extranonce1
  subscribeId : p'.subscribeId
    = if line.tag.any (·.2) then none else p.subscribeId

theorem method_notification (method : String) (params : List Json) :
    (notification method params).method = some method.toList := by
  have hmethod : ("method".toList == "id".toList) = false := by
    decide +kernel
  rw [notification, Json.method, Json.get_object, List.lookup_cons, hmethod]
  simp only [List.lookup_cons, BEq.rfl, Option.bind_some, Json.asStr]

theorem id_notification (method : String) (params : List Json) :
    (notification method params).id = none := by
  rw [notification, Json.id, Json.get_object, List.lookup_cons]
  simp only [BEq.rfl, Option.bind_some, Json.asU64]

theorem params_notification (method : String) (params : List Json) :
    (notification method params).params = some params := by
  have hid : ("params".toList == "id".toList) = false := by
    decide +kernel
  have hmethod : ("params".toList == "method".toList) = false := by
    decide +kernel
  rw [notification, Json.params, Json.get_object, List.lookup_cons, hid]
  simp only [List.lookup_cons, hmethod, BEq.rfl, Option.bind_some,
    Json.asArray]

/-- A notification that the proxy does not know leaves it alone. -/
theorem interceptUpstream_other {p : Proxy} {method : String}
    {params : List Json}
    (hextranonce : method.toList ≠ "mining.set_extranonce".toList)
    (hnotify : method.toList ≠ "mining.notify".toList) :
    p.interceptUpstream (notification method params) = p := by
  have hne : ∀ cs, method.toList ≠ cs → some method.toList ≠ some cs :=
    fun cs h heq => h (Option.some.inj heq)
  unfold Proxy.interceptUpstream
  rw [method_notification, id_notification, if_neg (hne _ hextranonce),
    if_neg (hne _ hnotify)]

theorem reply_json (id : Json) (body : Reply) :
    (Line.reply id body).json.method = none
      ∧ (Line.reply id body).json.id = id.asU64 := by
  have hmethod : ("method".toList == "id".toList) = false := by
    decide +kernel
  have hresult : ("method".toList == "result".toList) = false := by
    decide +kernel
  have herror : ("method".toList == "error".toList) = false := by
    decide +kernel
  constructor
  · rw [Line.json, Json.method, Json.get_object, List.lookup_cons, hmethod]
    cases body with
    | refused code message =>
        simp only [Reply.fields, List.lookup_cons, herror, List.lookup_nil,
          Option.bind_none]
    | subscribed en1 =>
        simp only [Reply.fields, List.lookup_cons, hresult,
          List.lookup_nil, Option.bind_none]
    | yes =>
        simp only [Reply.fields, List.lookup_cons, hresult,
          List.lookup_nil, Option.bind_none]
    | configured =>
        simp only [Reply.fields, List.lookup_cons, hresult,
          List.lookup_nil, Option.bind_none]
  · rw [Line.json, Json.id, Json.get_object, List.lookup_cons]
    simp only [BEq.rfl, Option.bind_some]

/-- The place the proxy looks for an extranonce in a reply. -/
def Json.assigned (msg : Json) : Option Text :=
  ((msg.get "result").bind Json.asArray).bind fun result => text result 1

theorem assigned_subscribed (id : Json) (extranonce1 : Text) :
    (Line.reply id (.subscribed extranonce1)).json.assigned
      = some extranonce1 := by
  have hid : ("result".toList == "id".toList) = false := by
    decide +kernel
  rw [Json.assigned, Line.json, Json.get_object, List.lookup_cons, hid]
  simp only [Reply.fields, List.lookup_cons, BEq.rfl, Option.bind_some,
    Json.asArray, text, List.getElem?_cons_zero, List.getElem?_cons_succ,
    Json.asStr]

theorem interceptUpstream_reply (p : Proxy) (id : Json) (body : Reply) :
    p.interceptUpstream (Line.reply id body).json
      = id.asU64.elim p fun i =>
        if p.subscribeId = some i then
          { p.setExtranonce1 (Line.reply id body).json.assigned with
            subscribeId := none }
        else p.answered i (Line.reply id body).json.accepted := by
  obtain ⟨hmethod, hid⟩ := reply_json id body
  have hnot : (Line.reply id body).json.isNotice = false := by
    unfold Json.isNotice
    rw [hmethod]
    exact decide_eq_false (by simp)
  rw [interceptUpstream_of_not_notice hnot, hid]
  rfl

theorem answered_keeps (p : Proxy) (id : U64) (accepted : Bool) :
    (p.answered id accepted).extranonce1 = p.extranonce1
      ∧ (p.answered id accepted).subscribeId = p.subscribeId := by
  unfold Proxy.answered
  split
  case h_1 => exact ⟨rfl, rfl⟩
  case h_2 =>
      dsimp only
      split
      case isTrue => exact ⟨rfl, rfl⟩
      case isFalse => split <;> exact ⟨rfl, rfl⟩

theorem notify_keeps (p : Proxy) (params : List Json) :
    (p.notify params).extranonce1 = p.extranonce1
      ∧ (p.notify params).subscribeId = p.subscribeId := by
  unfold Proxy.notify
  dsimp only
  split <;> exact ⟨rfl, rfl⟩

/-- The proxy hears an extranonce of every line that has one, if it knows
a subscription's answer by its id and takes no other answer for it. -/
theorem hears_line {p : Proxy} {line : Line}
    (htag : ∀ t, line.tag = some t → (t.2 = true → t.1.isSome
      ∧ p.subscribeId = t.1) ∧ (t.2 = false → t.1 = none
        ∨ t.1 ≠ p.subscribeId)) :
    Hears p (p.interceptUpstream line.json) line := by
  cases line with
  | reply id body =>
      rw [interceptUpstream_reply]
      have hother : Line.tag (.reply id body) = some (id.asU64, false) →
          ∀ i, id.asU64 = some i → p.subscribeId ≠ some i := by
        intro h i hi heq
        rcases (htag _ h).2 rfl with hnone | hne
        · rw [hi] at hnone
          cases hnone
        · exact hne (hi.trans heq.symm)
      have hkept : Line.tag (.reply id body) = some (id.asU64, false) →
          (Line.assigns (.reply id body)) = none →
          Hears p (id.asU64.elim p fun i =>
            if p.subscribeId = some i then
              { p.setExtranonce1 (Line.reply id body).json.assigned with
                subscribeId := none }
            else p.answered i (Line.reply id body).json.accepted)
            (.reply id body) := by
        intro h hassigns
        cases hi : id.asU64 with
        | none =>
            refine ⟨?_, ?_⟩
            · rw [hassigns]
              rfl
            · rw [h]
              rfl
        | some i =>
            obtain ⟨hen1, hid⟩ := answered_keeps p i
              (Line.reply id body).json.accepted
            dsimp only [Option.elim]
            rw [if_neg (hother h i hi)]
            refine ⟨?_, ?_⟩
            · rw [hassigns, hen1]
              rfl
            · rw [h, hid]
              rfl
      cases body with
      | subscribed extranonce1 =>
          obtain ⟨hsome, heq⟩ := (htag _ rfl).1 rfl
          obtain ⟨i, hi⟩ := Option.isSome_iff_exists.mp hsome
          dsimp only at hi heq
          rw [hi] at heq ⊢
          dsimp only [Option.elim]
          rw [if_pos heq, assigned_subscribed, setExtranonce1_hear]
          exact ⟨rfl, rfl⟩
      | yes => exact hkept rfl rfl
      | configured => exact hkept rfl rfl
      | refused code message => exact hkept rfl rfl
  | setDifficulty difficulty =>
      have hsame : p.interceptUpstream (Line.setDifficulty difficulty).json
          = p :=
        interceptUpstream_other (by decide +kernel) (by decide +kernel)
      rw [hsame]
      exact ⟨rfl, rfl⟩
  | setVersionMask =>
      have hsame : p.interceptUpstream Line.setVersionMask.json = p :=
        interceptUpstream_other (by decide +kernel) (by decide +kernel)
      rw [hsame]
      exact ⟨rfl, rfl⟩
  | notify job =>
      have hjson : (Line.notify job).json = notification "mining.notify"
          (((Line.notify job).json.params).getD []) := rfl
      have hne : some "mining.notify".toList
          ≠ some "mining.set_extranonce".toList := by
        decide +kernel
      rw [hjson]
      unfold Proxy.interceptUpstream
      rw [method_notification, params_notification, if_neg hne,
        if_pos rfl]
      obtain ⟨hen1, hid⟩ := notify_keeps p
        (((Line.notify job).json.params).getD [])
      exact ⟨hen1, hid⟩
  | setExtranonce extranonce1 =>
      have hjson : (Line.setExtranonce extranonce1).json
          = notification "mining.set_extranonce"
            [.string extranonce1, .number (some 8)] := rfl
      rw [hjson]
      unfold Proxy.interceptUpstream
      rw [method_notification, params_notification, if_pos rfl]
      dsimp only
      have htext : text [.string extranonce1, .number (some 8)] 0
          = some extranonce1 := rfl
      rw [htext, setExtranonce1_hear]
      exact ⟨rfl, rfl⟩

-- ========================================================= the invariant

/-- The subscription that waits is the one the proxy waits for, and no
other answer on its way has its id. -/
structure Tracked (p : Proxy) (tags : List (Option U64 × Bool)) : Prop where
  subscriptions : tags.filter (·.2)
    = (p.subscribeId.map fun id => (some id, true)).toList
  others : ∀ t ∈ tags, t.2 = false → t.1 = none ∨ t.1 ≠ p.subscribeId

/-- Nothing that assigns an extranonce is before a share or on its way
back, and the proxy still has the one it captured. -/
def Captured (addr : SocketAddr) (s : Link) : Prop :=
  ∀ before r after, s.toServer = before ++ r :: after → r.submits = true →
    (∀ q ∈ before, q.assigns = false) ∧ s.coming addr = []
      ∧ r.seen.extranonce1 = s.proxy.extranonce1

structure OnLine (addr : SocketAddr) (s : Link)
    (served : List StratumRequest) : Prop where
  entry_eq : (entry s.server addr).map Prod.fst
    = some (held s.extranonce1 served)
  heard : (s.coming addr).foldl hear s.proxy.extranonce1
    = (served.filterMap fun r => r.assigns s.extranonce1).foldl hear []
  tracked : Tracked s.proxy (s.tags addr)
  captured : Captured addr s

theorem Tracked.drop {p : Proxy} {t : Option U64 × Bool}
    {tags : List (Option U64 × Bool)} (h : Tracked p (t :: tags))
    (ht : t.2 = false) : Tracked p tags := by
  refine ⟨?_, fun u hu => h.others u (List.mem_cons_of_mem t hu)⟩
  rw [← h.subscriptions, List.filter_cons_of_neg]
  rw [ht]
  exact Bool.false_ne_true

/-- The waiting subscription is answered. -/
theorem Tracked.answered {p p' : Proxy} {t : Option U64 × Bool}
    {tags : List (Option U64 × Bool)} (h : Tracked p (t :: tags))
    (ht : t.2 = true) (hp : p'.subscribeId = none) :
    (t.1.isSome ∧ p.subscribeId = t.1) ∧ Tracked p' tags := by
  have hsubs := h.subscriptions
  rw [List.filter_cons_of_pos ht] at hsubs
  cases hid : p.subscribeId with
  | none =>
      rw [hid] at hsubs
      cases hsubs
  | some id =>
      rw [hid] at hsubs
      obtain ⟨rfl, hrest⟩ := List.cons.inj hsubs
      refine ⟨⟨rfl, rfl⟩, ?_, ?_⟩
      · rw [hrest, hp]
        rfl
      · intro u hu hfalse
        rw [hp]
        cases hu1 : u.1 with
        | none => exact Or.inl rfl
        | some i => exact Or.inr (Option.some_ne_none i)

theorem Tracked.congr {p p' : Proxy} {tags : List (Option U64 × Bool)}
    (h : Tracked p tags) (hp : p'.subscribeId = p.subscribeId) :
    Tracked p' tags := by
  constructor
  · rw [hp]
    exact h.subscriptions
  · rw [hp]
    exact h.others

-- ------------------------------------------------------------- the miner

theorem passedOn_extranonce1 (p : Proxy) (msg : Json) :
    (p.passedOn msg).extranonce1 = p.extranonce1 := by
  have hcases := passedOn_cases p msg
  generalize p.passedOn msg = q at hcases ⊢
  cases hcases with
  | subscribes hid hnone => rfl
  | submits hcaptured => rfl
  | other hnone => rfl

theorem passedOn_subscribeId (p : Proxy) (msg : Json) :
    (p.passedOn msg).subscribeId
      = if msg.method = some "mining.subscribe".toList then
          msg.id.or p.subscribeId
        else p.subscribeId := by
  have hsubmit : ∀ q : Proxy,
      (q.interceptSubmitRequest msg).subscribeId = q.subscribeId := by
    intro q
    unfold Proxy.interceptSubmitRequest
    split <;> rfl
  rw [Proxy.passedOn, hsubmit]
  unfold Proxy.trackSubscribeRequest
  split
  · cases msg.id <;> rfl
  · rfl

/-- A line that may be sent leaves the answers to come told apart. -/
theorem tracked_sends {s : Link} {msg : Json}
    (h : Tracked s.proxy (s.tags addr)) (hok : sends addr s msg = true) :
    Tracked (s.proxy.passedOn msg)
      (s.tags addr ++ (Request.tag ⟨msg, s.proxy⟩).toList) := by
  unfold sends at hok
  unfold Request.tag
  dsimp only
  cases hparse : parseRequest msg with
  | none =>
      rw [hparse] at hok
      have hmethod := of_decide_eq_true hok
      rw [Option.map_none, Option.toList_none, List.append_nil]
      refine h.congr ?_
      rw [passedOn_subscribeId, if_neg hmethod]
  | some request =>
      rw [hparse] at hok
      dsimp only at hok
      rw [Option.map_some, Option.toList_some]
      by_cases hsub : request.method = "mining.subscribe".toList
      · rw [if_pos hsub] at hok
        obtain ⟨hmethod, hid, hsome, hnone, hfresh⟩ := of_decide_eq_true hok
        obtain ⟨id, hid'⟩ := Option.isSome_iff_exists.mp hsome
        have hnew : (s.proxy.passedOn msg).subscribeId = some id := by
          rw [passedOn_subscribeId, if_pos (hmethod.trans (by rw [hsub])),
            hid']
          rfl
        constructor
        · rw [List.filter_append, h.subscriptions, hnone, hnew, ← hid, hid',
            decide_eq_true hsub]
          rfl
        · intro t ht hfalse
          rcases List.mem_append.mp ht with ht | ht
          · right
            rw [hnew, ← hid']
            exact of_decide_eq_true (List.all_eq_true.mp hfresh t ht)
          · rw [List.mem_singleton.mp ht] at hfalse
            exact absurd hsub (of_decide_eq_false hfalse)
      · rw [if_neg hsub] at hok
        obtain ⟨hmethod, hid, -⟩ := of_decide_eq_true hok
        have hsame : (s.proxy.passedOn msg).subscribeId
            = s.proxy.subscribeId := by
          rw [passedOn_subscribeId, if_neg hmethod]
        constructor
        · rw [List.filter_append, h.subscriptions, hsame,
            decide_eq_false hsub]
          exact List.append_nil _
        · intro t ht hfalse
          rw [hsame]
          rcases List.mem_append.mp ht with ht | ht
          · exact h.others t ht hfalse
          · rw [List.mem_singleton.mp ht]
            exact hid

theorem onLine_fromMiner {s : Link} {served : List StratumRequest}
    {msg : Json} (h : OnLine addr s served)
    (hok : sends addr s msg = true) :
    OnLine addr { s with
      proxy := s.proxy.passedOn msg
      toServer := s.toServer ++ [⟨msg, s.proxy⟩] } served := by
  have hen1 := passedOn_extranonce1 s.proxy msg
  refine ⟨h.entry_eq, ?_, ?_, ?_⟩
  · rw [hen1]
    exact h.heard
  · have htracked := tracked_sends h.tracked hok
    unfold Link.tags at htracked ⊢
    rw [List.append_assoc] at htracked
    dsimp only
    rw [List.filterMap_append]
    exact htracked
  · intro before r after hsplit hsubmits
    dsimp only at hsplit ⊢
    rw [hen1]
    rcases List.eq_nil_or_concat after with rfl | ⟨after, last, rfl⟩
    · -- the share itself
      obtain ⟨rfl, hr⟩ := List.append_inj' hsplit rfl
      obtain rfl := (List.cons.inj hr).1
      obtain ⟨request, hparse, hmethod⟩ :=
        (Option.any_eq_true _ _).mp hsubmits
      have hne : request.method ≠ "mining.subscribe".toList := by
        rw [of_decide_eq_true hmethod]
        decide +kernel
      unfold sends at hok
      rw [hparse] at hok
      dsimp only at hok
      rw [if_neg hne] at hok
      obtain ⟨-, -, hquiet⟩ := of_decide_eq_true hok
      obtain ⟨hcoming, hbefore⟩ := hquiet (of_decide_eq_true hmethod)
      refine ⟨fun q hq => ?_, hcoming, rfl⟩
      rw [← Bool.not_eq_true']
      exact List.all_eq_true.mp hbefore q hq
    · have hinit : s.toServer = before ++ r :: after := by
        rw [List.concat_eq_append, ← List.cons_append,
          ← List.append_assoc] at hsplit
        exact (List.append_inj' hsplit rfl).1
      exact h.captured before r after hinit hsubmits

-- ----------------------------------------------------------- the handler

/-- The extranonces in what is due, by the entry. -/
def Due.texts : Due → Option (Text × Bool) → List Text
  | .answer lines, _ => lines.filterMap Line.assigns
  | .extranonce, some (extranonce1, true) => [extranonce1]
  | _, _ => []

theorem assigns_jobLine (s : ServerState) :
    (jobLine s).filterMap Line.assigns = [] := by
  unfold jobLine
  cases s.currentJob <;> rfl

theorem tag_jobLine (s : ServerState) :
    (jobLine s).filterMap Line.tag = [] := by
  unfold jobLine
  cases s.currentJob <;> rfl

theorem assigns_due (s : ServerState) (d : Due) :
    (d.lines s addr).filterMap Line.assigns = d.texts (entry s addr) := by
  cases d with
  | answer lines => rfl
  | firstJob => exact assigns_jobLine s
  | versionMask => rfl
  | extranonce =>
      unfold Due.lines entry
      dsimp only
      cases s.miners addr with
      | none => rfl
      | some m =>
          dsimp only [Option.map]
          cases m.suiAddress.isSome with
          | false => rfl
          | true => exact congrArg _ (assigns_jobLine s)

/-- Only an answer has a tag. -/
def Due.tags : Due → List (Option U64 × Bool)
  | .answer lines => lines.filterMap Line.tag
  | _ => []

theorem tags_due (s : ServerState) (d : Due) :
    (d.lines s addr).filterMap Line.tag = d.tags := by
  cases d with
  | answer lines => rfl
  | firstJob => exact tag_jobLine s
  | versionMask => rfl
  | extranonce =>
      unfold Due.lines
      dsimp only
      cases s.miners addr with
      | none => rfl
      | some m =>
          dsimp only
          split
          · exact tag_jobLine s
          · rfl

theorem coming_eq (s : Link) : s.coming addr
    = s.toProxy.filterMap Line.assigns
      ++ s.due.flatMap fun d => d.texts (entry s.server addr) := by
  unfold Link.coming Link.lines Link.dueLines
  rw [List.filterMap_append, List.filterMap_flatMap]
  simp only [assigns_due]

theorem tags_eq (s : Link) : s.tags addr
    = s.toProxy.filterMap Line.tag ++ s.due.flatMap Due.tags
      ++ s.toServer.filterMap Request.tag := by
  unfold Link.tags Link.lines Link.dueLines
  rw [List.filterMap_append, List.filterMap_flatMap]
  simp only [tags_due]

/-- An authorization that does not panic. -/
theorem entry_authorized {s : ServerState} {params : List Json}
    {en1 : Text} (hpanic : authorizePanics params = false)
    (hentry : (entry s addr).map Prod.fst = some en1) :
    entry (s.setMiner addr ((s.miners addr).map fun m =>
        m.authorized (params.map Json.value))) addr
      = some ((derivedFrom params).getD en1, (derivedFrom params).isSome) := by
  unfold entry at hentry
  cases hm : s.miners addr with
  | none =>
      rw [hm] at hentry
      cases hentry
  | some m =>
      rw [hm] at hentry
      obtain rfl := Option.some.inj hentry
      unfold entry ServerState.setMiner
      dsimp only [Option.map]
      rw [if_pos rfl]
      dsimp only
      unfold authorizePanics at hpanic
      unfold derivedFrom at hpanic ⊢
      unfold MinerState.authorized
      dsimp only
      have husername : (paramText (params.map Json.value) 0).getD
          "unknown".toList = username params := rfl
      rw [husername]
      cases hsui : suiAddressOf (username params) with
      | none => rfl
      | some suiAddress =>
          rw [hsui, Option.isSome_some, Option.bind_some,
            Bool.true_and] at hpanic
          dsimp only [Option.bind]
          cases hderived : deriveExtranonce1FromSuiAddress suiAddress with
          | none =>
              rw [hderived] at hpanic
              cases hpanic
          | some extranonce1 => rfl

/-- What serving a request comes to: its extranonce is in the entry, and
what it assigns is due, behind the answer with its id. -/
structure Handled (s s' : ServerState) (addr : SocketAddr)
    (original en1 : Text) (request : StratumRequest) (due : List Due) :
    Prop where
  entry_eq : (entry s' addr).map Prod.fst
    = some (request.derives.getD en1)
  texts : (due.flatMap fun d => d.texts (entry s' addr))
    = (request.assigns original).toList
  tags : due.flatMap Due.tags
    = [(request.id.asU64,
      decide (request.method = "mining.subscribe".toList))]

/-- What is due for a request that is answered. -/
def dueFor (request : StratumRequest) (reply : Reply)
    (newDiff : Option U64) : List Due :=
  .answer (.reply request.id reply
    :: (newDiff.map difficultyLine).toList) :: followUp request.method

theorem assigns_newDiff (newDiff : Option U64) :
    (newDiff.map difficultyLine).toList.filterMap Line.assigns = [] := by
  cases newDiff <;> rfl

theorem tag_newDiff (newDiff : Option U64) :
    (newDiff.map difficultyLine).toList.filterMap Line.tag = [] := by
  cases newDiff <;> rfl

theorem followUp_tags (method : Text) :
    (followUp method).flatMap Due.tags = [] := by
  unfold followUp
  split
  · rfl
  · split
    · rfl
    · split <;> rfl

/-- An answer without an extranonce, of a method that has none to give. -/
theorem handled_plain {s s' : ServerState} {original en1 : Text}
    {request : StratumRequest} {reply : Reply} {newDiff : Option U64}
    (hsub : request.method ≠ "mining.subscribe".toList)
    (hauth : request.method ≠ "mining.authorize".toList)
    (hentry : (entry s addr).map Prod.fst = some en1)
    (hsame : entry s' addr = entry s addr)
    (hreply : ∀ en1, reply ≠ .subscribed en1) :
    Handled s s' addr original en1 request
      (dueFor request reply newDiff) := by
  have hderives : request.derives = none := if_neg hauth
  have hassigns : Line.assigns (.reply request.id reply) = none := by
    cases reply with
    | subscribed en1 => exact absurd rfl (hreply en1)
    | yes => rfl
    | configured => rfl
    | refused code message => rfl
  have htag : Line.tag (.reply request.id reply)
      = some (request.id.asU64, false) := by
    cases reply with
    | subscribed en1 => exact absurd rfl (hreply en1)
    | yes => rfl
    | configured => rfl
    | refused code message => rfl
  refine ⟨?_, ?_, ?_⟩
  · rw [hsame, hentry, hderives]
    rfl
  · rw [dueFor, List.flatMap_cons, StratumRequest.assigns, if_neg hsub,
      hderives, Due.texts, List.filterMap_cons_none hassigns,
      assigns_newDiff]
    unfold followUp
    rw [if_neg hsub, if_neg hauth]
    split <;> rfl
  · rw [dueFor, List.flatMap_cons, followUp_tags, Due.tags,
      List.filterMap_cons_some htag, tag_newDiff, decide_eq_false hsub]
    rfl

theorem handled_of_some {s s' : ServerState} {original en1 : Text}
    {request : StratumRequest} {reply : Reply} {newDiff : Option U64}
    (hentry : (entry s addr).map Prod.fst = some en1)
    (hs : handleStratumRequest H cfg s addr original request
      = some (s', reply, newDiff)) :
    Handled s s' addr original en1 request
      (dueFor request reply newDiff) := by
  have hne : "mining.authorize".toList ≠ "mining.subscribe".toList := by
    decide +kernel
  have hconfigure : "mining.authorize".toList
      ≠ "mining.configure".toList := by
    decide +kernel
  unfold handleStratumRequest at hs
  by_cases hsub : request.method = "mining.subscribe".toList
  · rw [if_pos hsub] at hs
    cases hs
    have hderives : request.derives = none := by
      rw [StratumRequest.derives, hsub, if_neg hne.symm]
    refine ⟨?_, ?_, ?_⟩
    · rw [hentry, hderives]
      rfl
    · rw [dueFor, followUp, if_pos hsub, StratumRequest.assigns,
        if_pos hsub]
      rfl
    · rw [dueFor, List.flatMap_cons, followUp_tags, decide_eq_true hsub]
      rfl
  · rw [if_neg hsub] at hs
    by_cases hauth : request.method = "mining.authorize".toList
    · rw [if_pos hauth] at hs
      cases hpanic : authorizePanics request.params with
      | true =>
          rw [hpanic, if_pos rfl] at hs
          cases hs
      | false =>
          rw [hpanic, if_neg Bool.false_ne_true] at hs
          cases hs
          have hnew := entry_authorized hpanic hentry
          have hderives : request.derives = derivedFrom request.params :=
            if_pos hauth
          refine ⟨?_, ?_, ?_⟩
          · rw [hnew, hderives]
            rfl
          · rw [dueFor, followUp, if_neg hsub, hauth, if_neg hconfigure,
              if_pos rfl, StratumRequest.assigns, if_neg hsub, hnew,
              hderives]
            cases derivedFrom request.params <;> rfl
          · rw [dueFor, List.flatMap_cons, followUp_tags,
              decide_eq_false hsub]
            rfl
    · rw [if_neg hauth] at hs
      have hplain : ∀ s' reply newDiff, entry s' addr = entry s addr →
          (∀ en1, reply ≠ .subscribed en1) →
          Handled s s' addr original en1 request
            (dueFor request reply newDiff) := fun _ _ _ =>
        handled_plain hsub hauth hentry
      by_cases hsubmit : request.method = "mining.submit".toList
      · rw [if_pos hsubmit] at hs
        have hsame : entry (validateAndSubmitShare H cfg s addr
            (M1n3Protocol.parseSubmitParams
              (request.params.map Json.value))).1 addr = entry s addr :=
          entry_validate s addr _
        split at hs
        case h_1 heq =>
          rw [heq] at hsame
          cases hs
          exact hplain _ _ _ hsame (by simp)
        case h_2 heq =>
          rw [heq] at hsame
          cases hs
          exact hplain _ _ _ hsame (by simp)
        case h_3 heq =>
          rw [heq] at hsame
          cases hs
          exact hplain _ _ _ hsame (by simp)
      · rw [if_neg hsubmit] at hs
        have hrest : s' = s ∧ ∀ en1, reply ≠ .subscribed en1 := by
          split at hs
          · cases hs
            exact ⟨rfl, by simp⟩
          · split at hs
            · cases hs
              exact ⟨rfl, by simp⟩
            · split at hs
              · cases hs
                exact ⟨rfl, by simp⟩
              · cases hs
                exact ⟨rfl, by simp⟩
        exact hplain _ _ _ (by rw [hrest.1]) hrest.2

/-- Where the handler panics it is at an address it cannot slice. -/
theorem panics_of_none {s : ServerState} {original : Text}
    {request : StratumRequest}
    (hs : handleStratumRequest H cfg s addr original request = none) :
    request.method ≠ "mining.subscribe".toList := by
  intro hsub
  unfold handleStratumRequest at hs
  rw [if_pos hsub] at hs
  cases hs

theorem filterMap_cons_option {α β : Type _} (f : α → Option β) (a : α)
    (l : List α) : (a :: l).filterMap f = (f a).toList ++ l.filterMap f := by
  rw [List.filterMap_cons]
  cases f a <;> rfl

/-- A share behind the head of the queue has nothing before it. -/
theorem Captured.tail {s : Link} {r : Request} {rest : List Request}
    (h : Captured addr s) (hqueue : s.toServer = r :: rest) :
    ∀ before q after, rest = before ++ q :: after → q.submits = true →
      r.assigns = false ∧ (∀ q ∈ before, q.assigns = false)
        ∧ s.coming addr = []
        ∧ q.seen.extranonce1 = s.proxy.extranonce1 := by
  intro before q after hsplit hsubmits
  have hcons : s.toServer = (r :: before) ++ q :: after := by
    rw [hqueue, hsplit, List.cons_append]
  obtain ⟨hbefore, hcoming, hseen⟩ := h _ q after hcons hsubmits
  exact ⟨hbefore r List.mem_cons_self,
    fun q hq => hbefore q (List.mem_cons_of_mem r hq), hcoming, hseen⟩

theorem assigns_isSome (original : Text) (request : StratumRequest) :
    (request.assigns original).isSome = (request.assigns []).isSome := by
  unfold StratumRequest.assigns
  split <;> rfl

theorem held_concat (original : Text) (served : List StratumRequest)
    (request : StratumRequest) :
    held original (served ++ [request])
      = request.derives.getD (held original served) := by
  rw [held, held, List.filterMap_append, filterMap_cons_option,
    List.filterMap_nil, List.append_nil]
  cases request.derives with
  | none => rw [Option.toList_none, List.append_nil]; rfl
  | some en1 =>
      rw [Option.toList_some, List.getLast?_concat]
      rfl

/-- What reading a line comes to, and the request served by it. -/
inductive Reads (H : HashFn) (cfg : M1n3Protocol.Config)
    (addr : SocketAddr) (s : Link) (r : Request) (rest : List Request) :
    Link → Option StratumRequest → Prop
  | skipped (hparse : parseRequest r.msg = none) :
      Reads H cfg addr s r rest { s with toServer := rest } none
  | panicked {request : StratumRequest}
      (hparse : parseRequest r.msg = some request)
      (hnone : handleStratumRequest H cfg s.server addr s.extranonce1
        request = none) :
      Reads H cfg addr s r rest
        { s with toServer := rest, reading := false } none
  | served {request : StratumRequest} {server : ServerState}
      {reply : Reply} {newDiff : Option U64}
      (hparse : parseRequest r.msg = some request)
      (hsome : handleStratumRequest H cfg s.server addr s.extranonce1
        request = some (server, reply, newDiff)) :
      Reads H cfg addr s r rest
        { s with
          toServer := rest
          server := server
          due := dueFor request reply newDiff } (some request)

theorem read_cases {s s' : Link} (served : List StratumRequest)
    (hs : s.read H cfg addr = .ok s') :
    ∃ r rest request, s.due = [] ∧ s.toServer = r :: rest
      ∧ Reads H cfg addr s r rest s' request
      ∧ servedLog s .read s' served = served ++ request.toList := by
  unfold Link.read at hs
  split at hs
  case h_2 => cases hs
  case h_1 r rest hreading hdue hqueue =>
      have hhead : (s.toServer.head?.bind fun r => parseRequest r.msg)
          = parseRequest r.msg := by
        rw [hqueue]
        rfl
      unfold servedLog
      dsimp only
      rw [hhead]
      dsimp only at hs
      cases hparse : parseRequest r.msg with
      | none =>
          rw [hparse] at hs
          cases hs
          exact ⟨r, rest, none, hdue, hqueue, .skipped hparse, if_pos hreading⟩
      | some request =>
          rw [hparse] at hs
          dsimp only at hs
          cases hhandled : handleStratumRequest H cfg s.server addr
              s.extranonce1 request with
          | none =>
              rw [hhandled] at hs
              cases hs
              refine ⟨r, rest, none, hdue, hqueue,
                .panicked hparse hhandled, ?_⟩
              rw [if_neg Bool.false_ne_true, Option.toList_none,
                List.append_nil]
          | some handled =>
              obtain ⟨server, reply, newDiff⟩ := handled
              rw [hhandled] at hs
              cases hs
              exact ⟨r, rest, some request, hdue, hqueue,
                .served hparse hhandled, if_pos hreading⟩

/-- With nothing due, what is on its way back is what was written. -/
theorem coming_of_idle {s : Link} (hdue : s.due = []) :
    s.coming addr = s.toProxy.filterMap Line.assigns := by
  rw [coming_eq, hdue, List.flatMap_nil, List.append_nil]

theorem tags_of_idle {s : Link} (hdue : s.due = []) :
    s.tags addr = s.toProxy.filterMap Line.tag
      ++ s.toServer.filterMap Request.tag := by
  rw [tags_eq, hdue, List.flatMap_nil, List.append_nil]

/-- A tag that is no subscription's may go. -/
theorem Tracked.remove {p : Proxy} {before after : List (Option U64 × Bool)}
    {t : Option U64 × Bool} (h : Tracked p (before ++ t :: after))
    (ht : t.2 = false) : Tracked p (before ++ after) := by
  constructor
  · rw [← h.subscriptions, List.filter_append, List.filter_append,
      List.filter_cons_of_neg]
    rw [ht]
    exact Bool.false_ne_true
  · intro u hu
    refine h.others u ?_
    rcases List.mem_append.mp hu with hu | hu
    · exact List.mem_append_left _ hu
    · exact List.mem_append_right _ (List.mem_cons_of_mem t hu)

theorem onLine_read {s s' : Link} {served : List StratumRequest}
    (h : OnLine addr s served) (hs : s.read H cfg addr = .ok s') :
    OnLine addr s' (servedLog s .read s' served) := by
  obtain ⟨r, rest, request, hdue, hqueue, hreads, hlog⟩ :=
    read_cases served hs
  have htail := h.captured.tail hqueue
  have htracked := h.tracked
  rw [tags_of_idle hdue, hqueue, filterMap_cons_option] at htracked
  rw [hlog]
  cases hreads with
  | skipped hparse =>
      have htag : r.tag = none := by
        rw [Request.tag, hparse]
        rfl
      rw [Option.toList_none, List.append_nil]
      refine ⟨h.entry_eq, h.heard, ?_, ?_⟩
      · rw [htag] at htracked
        have hidle : { s with toServer := rest }.due = [] := hdue
        rw [tags_of_idle hidle]
        exact htracked
      · intro before q after hsplit hsubmits
        exact (htail before q after hsplit hsubmits).2
  | @panicked request hparse hnone =>
      have htag : r.tag = some (request.id.asU64, false) := by
        rw [Request.tag, hparse, Option.map_some,
          decide_eq_false (panics_of_none hnone)]
      rw [Option.toList_none, List.append_nil]
      refine ⟨h.entry_eq, h.heard, ?_, ?_⟩
      · rw [htag] at htracked
        have hidle : { s with toServer := rest, reading := false }.due = [] :=
          hdue
        rw [tags_of_idle hidle]
        exact htracked.remove rfl
      · intro before q after hsplit hsubmits
        exact (htail before q after hsplit hsubmits).2
  | @served request server reply newDiff hparse hsome =>
      have hdone := handled_of_some h.entry_eq hsome
      have htag : r.tag = some (request.id.asU64,
          decide (request.method = "mining.subscribe".toList)) := by
        rw [Request.tag, hparse]
        rfl
      have hcoming : Link.coming { s with
          toServer := rest
          server := server
          due := dueFor request reply newDiff } addr
            = s.coming addr ++ (request.assigns s.extranonce1).toList := by
        rw [coming_eq, coming_of_idle hdue, hdone.texts]
      rw [Option.toList_some]
      refine ⟨?_, ?_, ?_, ?_⟩
      · rw [held_concat]
        exact hdone.entry_eq
      · rw [hcoming, List.foldl_append, h.heard, List.filterMap_append,
          filterMap_cons_option, List.filterMap_nil, List.append_nil,
          List.foldl_append]
      · rw [tags_eq, hdone.tags, List.append_assoc]
        rw [htag] at htracked
        exact htracked
      · intro before q after hsplit hsubmits
        obtain ⟨hhead, hbefore, hquiet, hseen⟩ :=
          htail before q after hsplit hsubmits
        refine ⟨hbefore, ?_, hseen⟩
        have hnone : (request.assigns s.extranonce1).isSome = false := by
          rw [Request.assigns, hparse, Option.any_some] at hhead
          rw [assigns_isSome]
          exact hhead
        rw [hcoming, hquiet, Option.not_isSome_iff_eq_none.mp
          (Bool.eq_false_iff.mp hnone)]
        rfl

-- ------------------------------------------------------------- the others

theorem onLine_write {s : Link} {served : List StratumRequest} {d : Due}
    {due : List Due} (h : OnLine addr s served) (hdue : s.due = d :: due) :
    OnLine addr { s with
      due := due
      toProxy := s.toProxy ++ d.lines s.server addr } served := by
  have hlines : Link.lines { s with
      due := due
      toProxy := s.toProxy ++ d.lines s.server addr } addr
        = s.lines addr := by
    unfold Link.lines Link.dueLines
    rw [hdue, List.flatMap_cons, List.append_assoc]
  have hcoming : Link.coming { s with
      due := due
      toProxy := s.toProxy ++ d.lines s.server addr } addr
        = s.coming addr := by
    rw [Link.coming, hlines, Link.coming]
  refine ⟨h.entry_eq, ?_, ?_, ?_⟩
  · rw [hcoming]
    exact h.heard
  · unfold Link.tags
    rw [hlines]
    exact h.tracked
  · intro before r after hsplit hsubmits
    rw [hcoming]
    exact h.captured before r after hsplit hsubmits

theorem onLine_server {s : Link} {served : List StratumRequest}
    {server : ServerState} (h : OnLine addr s served)
    (hentry : entry server addr = entry s.server addr) :
    OnLine addr { s with server := server } served := by
  have hcoming : Link.coming { s with server := server } addr
      = s.coming addr := by
    rw [coming_eq, coming_eq, hentry]
  refine ⟨?_, ?_, ?_, ?_⟩
  · rw [hentry]
    exact h.entry_eq
  · rw [hcoming]
    exact h.heard
  · rw [tags_eq]
    have htracked := h.tracked
    rw [tags_eq] at htracked
    exact htracked
  · intro before r after hsplit hsubmits
    rw [hcoming]
    exact h.captured before r after hsplit hsubmits

/-- A line on its way that neither answers nor assigns. -/
theorem onLine_notice {s : Link} {served : List StratumRequest}
    {lines : List Line} (h : OnLine addr s served)
    (hassigns : lines.filterMap Line.assigns = [])
    (htag : lines.filterMap Line.tag = []) :
    OnLine addr { s with toProxy := s.toProxy ++ lines } served := by
  have hcoming : Link.coming { s with toProxy := s.toProxy ++ lines } addr
      = s.coming addr := by
    rw [coming_eq, coming_eq, List.filterMap_append, hassigns,
      List.append_nil]
  refine ⟨h.entry_eq, ?_, ?_, ?_⟩
  · rw [hcoming]
    exact h.heard
  · rw [tags_eq, List.filterMap_append, htag, List.append_nil, ← tags_eq]
    exact h.tracked
  · intro before r after hsplit hsubmits
    rw [hcoming]
    exact h.captured before r after hsplit hsubmits

theorem onLine_fromServer {s : Link} {served : List StratumRequest}
    {line : Line} {rest : List Line} (h : OnLine addr s served)
    (hqueue : s.toProxy = line :: rest) :
    OnLine addr { s with
      proxy := s.proxy.interceptUpstream line.json
      toProxy := rest } served := by
  have htags : s.tags addr = line.tag.toList ++ Link.tags { s with
      proxy := s.proxy.interceptUpstream line.json
      toProxy := rest } addr := by
    rw [tags_eq, tags_eq, hqueue, filterMap_cons_option, List.append_assoc,
      List.append_assoc, List.append_assoc]
  have hcoming : s.coming addr = line.assigns.toList ++ Link.coming { s with
      proxy := s.proxy.interceptUpstream line.json
      toProxy := rest } addr := by
    rw [coming_eq, coming_eq, hqueue, filterMap_cons_option,
      List.append_assoc]
  have htracked := h.tracked
  rw [htags] at htracked
  have hhears : Hears s.proxy (s.proxy.interceptUpstream line.json) line := by
    refine hears_line fun t ht => ?_
    rw [ht, Option.toList_some, List.singleton_append] at htracked
    refine ⟨fun hsub => ?_, fun hfalse => ?_⟩
    · have hnone : ({ s.proxy with subscribeId := none } :
          Proxy).subscribeId = none := rfl
      exact (htracked.answered hsub hnone).1
    · exact htracked.others t List.mem_cons_self hfalse
  refine ⟨h.entry_eq, ?_, ?_, ?_⟩
  · have hheard := h.heard
    rw [hcoming, List.foldl_append, ← hhears.extranonce1] at hheard
    exact hheard
  · have hid := hhears.subscribeId
    cases ht : line.tag with
    | none =>
        rw [ht] at htracked hid
        exact htracked.congr hid
    | some t =>
        rw [ht, Option.toList_some, List.singleton_append] at htracked
        rw [ht, Option.any_some] at hid
        cases hsub : t.2 with
        | true =>
            rw [hsub, if_pos rfl] at hid
            exact (htracked.answered hsub hid).2
        | false =>
            rw [hsub, if_neg Bool.false_ne_true] at hid
            exact (htracked.drop hsub).congr hid
  · intro before r after hsplit hsubmits
    obtain ⟨hbefore, hquiet, hseen⟩ := h.captured before r after hsplit
      hsubmits
    rw [hcoming] at hquiet
    obtain ⟨hnone, hrest⟩ := List.append_eq_nil_iff.mp hquiet
    refine ⟨hbefore, hrest, ?_⟩
    rw [hhears.extranonce1, hnone]
    exact hseen

-- ================================================================= runs

/-- A connection with its requests. -/
def served (H : HashFn) (cfg : M1n3Protocol.Config) (server : ServerState)
    (addr : SocketAddr) (random : U32) :
    Machine Unit (Link × List StratumRequest) Link.Event :=
  (link H cfg server addr random).withGhost [] servedLog

theorem onLine_init (server : ServerState) (random : U32) :
    OnLine addr (.init server addr random) [] := by
  refine ⟨?_, rfl, ⟨rfl, ?_⟩, ?_⟩
  · unfold entry Link.init ServerState.setMiner
    dsimp only
    rw [if_pos rfl]
    rfl
  · intro t ht
    cases ht
  · intro before r after hsplit
    cases before <;> cases hsplit

theorem onLine_step {s s' : Link} {requests : List StratumRequest}
    {c : Link.Event} (h : OnLine addr s requests)
    (hok : orderlyLink addr s c = true)
    (hs : s.step H cfg addr c = .ok s') :
    OnLine addr s' (servedLog s c s' requests) := by
  cases c with
  | fromMiner msg =>
      cases hs
      exact onLine_fromMiner h hok
  | read => exact onLine_read h hs
  | write =>
      unfold Link.step at hs
      dsimp only at hs
      split at hs
      case h_1 => cases hs
      case h_2 d due hdue =>
          cases hs
          exact onLine_write h hdue
  | server e =>
      unfold Link.step at hs
      dsimp only at hs
      split at hs
      case isTrue => cases hs
      case isFalse hown =>
          cases hstep : s.server.step H cfg e with
          | error u =>
              rw [hstep] at hs
              cases hs
          | ok server =>
              rw [hstep] at hs
              cases hs
              exact onLine_server h
                (entry_step (Bool.eq_false_iff.mpr hown) hstep)
  | notice n =>
      cases hs
      cases n with
      | newJob d job => exact onLine_notice h rfl rfl
      | difficulty d => exact onLine_notice h rfl rfl
  | fromServer =>
      unfold Link.step at hs
      dsimp only at hs
      split at hs
      case h_1 => cases hs
      case h_2 line rest hqueue =>
          cases hs
          exact onLine_fromServer h hqueue

theorem onLine_of_reach {server : ServerState} {random : U32}
    {p : Link × List StratumRequest}
    (h : Machine.ReachVia (served H cfg server addr random)
      (fun p c => orderlyLink addr p.1 c = true) p) :
    OnLine addr p.1 p.2 := by
  refine Machine.ReachVia.withGhost_invariant (onLine_init server random)
    ?_ h
  intro s c s' requests _ hI hok hs
  exact onLine_step hI hok hs

/-- The handler's own never changes. -/
theorem extranonce1_step {s s' : Link} {c : Link.Event}
    (hs : s.step H cfg addr c = .ok s') :
    s'.extranonce1 = s.extranonce1 := by
  cases c with
  | fromMiner msg =>
      cases hs
      rfl
  | read =>
      obtain ⟨r, rest, request, -, -, hreads, -⟩ := read_cases [] hs
      cases hreads with
      | skipped => rfl
      | panicked => rfl
      | served => rfl
  | write =>
      unfold Link.step at hs
      dsimp only at hs
      split at hs <;> cases hs
      rfl
  | server e =>
      unfold Link.step at hs
      dsimp only at hs
      split at hs
      case isTrue => cases hs
      case isFalse =>
          cases hstep : s.server.step H cfg e with
          | error u =>
              rw [hstep] at hs
              cases hs
          | ok server =>
              rw [hstep] at hs
              cases hs
              rfl
  | notice n =>
      cases hs
      rfl
  | fromServer =>
      unfold Link.step at hs
      dsimp only at hs
      split at hs <;> cases hs
      rfl

theorem extranonce1_of_reach {server : ServerState} {random : U32}
    {s : Link} (h : Machine.Reach (link H cfg server addr random) s) :
    s.extranonce1 = Hex.padded 8 random.toNat := by
  refine Machine.ReachVia.invariant
    (I := fun s => s.extranonce1 = Hex.padded 8 random.toNat) rfl ?_ h
  intro s c s' hI _ hs
  exact (extranonce1_step hs).trans hI

/-- Digits two by two are bytes. -/
theorem decode_of_digits {cs : Text} (heven : cs.length % 2 = 0)
    (hdigits : ∀ c ∈ cs, (Hex.value c).isSome) :
    (Hex.decode cs).isSome := by
  induction cs using Hex.decode.induct with
  | case1 => rfl
  | case2 c => cases heven
  | case3 c d rest ih =>
      have hrest : rest.length % 2 = 0 := by
        rw [List.length_cons, List.length_cons] at heven
        omega
      obtain ⟨hi, hhi⟩ := Option.isSome_iff_exists.mp
        (hdigits c List.mem_cons_self)
      obtain ⟨lo, hlo⟩ := Option.isSome_iff_exists.mp
        (hdigits d (List.mem_cons_of_mem c List.mem_cons_self))
      obtain ⟨bs, hbs⟩ := Option.isSome_iff_exists.mp (ih hrest
        fun e he => hdigits e (List.mem_cons_of_mem c
          (List.mem_cons_of_mem d he)))
      rw [Hex.decode, hhi, hlo, hbs]
      rfl

/-- The handler's own extranonce is four bytes. -/
theorem decode_padded (random : U32) :
    ∃ en1, Hex.decode (Hex.padded 8 random.toNat) = some en1
      ∧ en1.length = 4 := by
  have hlen : (Hex.padded 8 random.toNat).length = 8 :=
    Hex.length_padded random.isLt
  have hdigits : ∀ c ∈ Hex.padded 8 random.toNat, (Hex.value c).isSome := by
    intro c hc
    obtain ⟨d, hd, rfl⟩ : ∃ d < 16, c = d.digitChar := by
      rcases List.mem_append.mp hc with hc | hc
      · exact ⟨0, by decide, (List.mem_replicate.mp hc).2⟩
      · exact Hex.toDigits_lower _ c hc
    rw [Hex.value_digitChar hd]
    rfl
  obtain ⟨en1, hen1⟩ := Option.isSome_iff_exists.mp
    (decode_of_digits (by rw [hlen]) hdigits)
  have hhalf := (Hex.of_decode hen1).1
  exact ⟨en1, hen1, by omega⟩

/-- Hearing a list of texts comes to the last, where it is hex. -/
theorem foldl_hear {texts : List Text} {cs : Text} {en1 : Bytes}
    (hlast : texts.getLast? = some cs) (hdecode : Hex.decode cs = some en1)
    (start : Bytes) : texts.foldl hear start = en1 := by
  rcases List.eq_nil_or_concat texts with rfl | ⟨rest, last, rfl⟩
  · cases hlast
  · rw [List.concat_eq_append, List.getLast?_concat] at hlast
    obtain rfl := Option.some.inj hlast
    rw [List.concat_eq_append, List.foldl_append, List.foldl_cons,
      List.foldl_nil, hear, hdecode]
    rfl

/-- Where nothing was told nothing was derived. -/
theorem held_of_none {original : Text} {requests : List StratumRequest}
    (h : requests.filterMap (fun r => r.assigns original) = []) :
    held original requests = original := by
  have hnone : requests.filterMap StratumRequest.derives = [] := by
    rw [List.filterMap_eq_nil_iff] at h ⊢
    intro r hr
    have hassigns := h r hr
    unfold StratumRequest.assigns at hassigns
    split at hassigns
    · cases hassigns
    · exact hassigns
  rw [held, hnone]
  rfl

/-- What is told last is the handler's own or what was derived last. -/
theorem lastAssigned_cases (original : Text)
    (requests : List StratumRequest) :
    lastAssigned original requests = none
      ∨ lastAssigned original requests = some original
      ∨ lastAssigned original requests = some (held original requests) := by
  induction requests using List.reverseRecOn with
  | nil => exact Or.inl rfl
  | append_singleton requests request ih =>
      rw [lastAssigned, List.filterMap_append, filterMap_cons_option,
        List.filterMap_nil, List.append_nil, held_concat]
      unfold StratumRequest.assigns
      by_cases hsub : request.method = "mining.subscribe".toList
      · rw [if_pos hsub, Option.toList_some, List.getLast?_concat]
        exact Or.inr (Or.inl rfl)
      · rw [if_neg hsub]
        cases request.derives with
        | none =>
            rw [Option.toList_none, List.append_nil]
            exact ih
        | some en1 =>
            rw [Option.toList_some, List.getLast?_concat]
            exact Or.inr (Or.inr rfl)

/-- Whether the two are in step can be computed. -/
theorem inStep_iff {original : Text} {requests : List StratumRequest} :
    InStep original requests
      ↔ (lastAssigned original requests).any (fun en1 =>
        Hex.decode en1 = Hex.decode (held original requests)) = true := by
  unfold InStep
  rw [Option.any_eq_true]
  simp only [decide_eq_true_eq]

instance (original : Text) (requests : List StratumRequest) :
    Decidable (InStep original requests) :=
  decidable_of_iff _ inStep_iff.symm

-- ------------------------------------------------------------ two miners

def requestLine (id : U64) (method : String) (params : List String) : Json :=
  .object [
    ("id".toList, .number (some id)),
    ("method".toList, .string method.toList),
    ("params".toList, .array (params.map fun s => .string s.toList))]

def minerAddress : String :=
  "0x5e996cc300000000000000000000000000000000000000000000000000000000"

/-- A request is sent and answered, and `n` lines come back. -/
def exchange (msg : Json) (n : Nat) : List Link.Event :=
  [.fromMiner msg, .read, .write, .write] ++ List.replicate n .fromServer

def oneJob : ServerState :=
  { ServerState.init ⟨[], true, 1, 1⟩ with
    jobs := [("01".toList, announced "01" "0xa1" 0x20000000)] }

def oneShare : ShareSubmission :=
  { worker := "rig1".toList
    jobId := "01".toList
    extranonce2 := "307b11be5acab562".toList
    ntime := "4dd7f5c7".toList
    nonce := "9546a142".toList
    versionBits := none }

/-- The next line is a share the server can build. -/
def atShare (inStep : Bool) (p : Link × List StratumRequest) : Bool :=
  p.1.toServer.head?.any (fun r => r.submits)
    && (p.1.server.mined 0 oneShare).toOption.isSome
    && decide (InStep "000000ff".toList p.2) == inStep

/-- A run comes to a share that is judged under the extranonce captured
with it, or to one that is not. -/
def ComesToShare (agrees : Bool) : Prop :=
  ∃ (p : Link × List StratumRequest) (r : Request) (m : Mined),
    Machine.ReachVia (served sha256 ⟨[], true, 1, 1⟩ oneJob 0 0xff)
      (fun p c => orderlyLink 0 p.1 c = true) p
    ∧ p.1.toServer.head? = some r
    ∧ p.1.server.mined 0 oneShare = .ok m
    ∧ decide (r.seen.extranonce1 = m.extranonce1) = agrees

/-- A miner that subscribes, and then names its address. -/
def startLines : List Link.Event :=
  exchange (requestLine 1 "mining.subscribe" []) 2
    ++ exchange (requestLine 2 "mining.authorize" [minerAddress]) 2

/-- Without a subscription after an address the two are in step. -/
theorem inStep_of_authorized {original en1 : Text}
    {before after : List StratumRequest} {request : StratumRequest}
    (hsub : request.method ≠ "mining.subscribe".toList)
    (hderives : request.derives = some en1)
    (hafter : ∀ r ∈ after, r.method ≠ "mining.subscribe".toList) :
    InStep original (before ++ request :: after) := by
  refine ⟨_, ?_, rfl⟩
  induction after using List.reverseRecOn with
  | nil =>
      rw [held_concat, hderives, lastAssigned, List.filterMap_append,
        filterMap_cons_option, List.filterMap_nil, List.append_nil,
        StratumRequest.assigns, if_neg hsub, hderives, Option.toList_some,
        List.getLast?_concat]
      rfl
  | append_singleton after r ih =>
      have hr := hafter r (List.mem_append_right _ List.mem_cons_self)
      have hlast := ih fun q hq => hafter q (List.mem_append_left _ hq)
      have hsplit : before ++ request :: (after ++ [r])
          = (before ++ request :: after) ++ [r] := by
        rw [← List.cons_append, List.append_assoc]
      rw [hsplit, held_concat, lastAssigned, List.filterMap_append,
        filterMap_cons_option, List.filterMap_nil, List.append_nil,
        StratumRequest.assigns, if_neg hr]
      cases r.derives with
      | none =>
          rw [Option.toList_none, List.append_nil]
          exact hlast
      | some en2 =>
          rw [Option.toList_some, List.getLast?_concat]
          rfl

/-- After a subscription that comes too late they are not, until the next
authorization. -/
theorem not_inStep_of_subscribed {original : Text}
    {before after : List StratumRequest} {request : StratumRequest}
    (hsub : request.method = "mining.subscribe".toList)
    (hheld : Hex.decode original ≠ Hex.decode (held original before))
    (hafter : ∀ r ∈ after, r.derives = none) :
    ¬ InStep original (before ++ request :: after) := by
  have hne : "mining.subscribe".toList ≠ "mining.authorize".toList := by
    decide +kernel
  have hderives : request.derives = none := by
    rw [StratumRequest.derives, hsub, if_neg hne]
  have hkept : lastAssigned original (before ++ request :: after)
        = some original
      ∧ held original (before ++ request :: after)
        = held original before := by
    induction after using List.reverseRecOn with
    | nil =>
        constructor
        · rw [lastAssigned, List.filterMap_append, filterMap_cons_option,
            List.filterMap_nil, List.append_nil, StratumRequest.assigns,
            if_pos hsub, Option.toList_some, List.getLast?_concat]
        · rw [held_concat, hderives]
          rfl
    | append_singleton after r ih =>
        have hr := hafter r (List.mem_append_right _ List.mem_cons_self)
        obtain ⟨hlast, hheld'⟩ := ih fun q hq =>
          hafter q (List.mem_append_left _ hq)
        have hsplit : before ++ request :: (after ++ [r])
            = (before ++ request :: after) ++ [r] := by
          rw [← List.cons_append, List.append_assoc]
        rw [hsplit]
        constructor
        · rw [lastAssigned, List.filterMap_append, filterMap_cons_option,
            List.filterMap_nil, List.append_nil, StratumRequest.assigns, hr]
          split
          · rw [Option.toList_some, List.getLast?_concat]
          · rw [Option.toList_none, List.append_nil]
            exact hlast
        · rw [held_concat, hr]
          exact hheld'
  rintro ⟨cs, hcs, hdecode⟩
  rw [hkept.1] at hcs
  obtain rfl := Option.some.inj hcs
  rw [hkept.2] at hdecode
  exact hheld hdecode

end M1n3Protocol.Sidecar
