/-
What a connection's proxy puts on the flusher's queue.

# One answer, one entry

For each share on its way, as a request, an answer or a message, the proxy
holds the share under the id of the request, and no other request on its
way has that id (`Held`). So an answer finds the entry of its own request,
and an answer to anything else finds none.

# Where it goes wrong

The ids are the miner's. The extranonce and the version are those of the
moment at which the proxy reads the request, the template that of the
moment at which it reads the answer. `orderly` is what keeps both what the
upstream takes them for; a share accepted across a clean job is lost, and
one whose miner sends no version bits is queued with another version than
it was hashed with (`share_not_forwarded`).
-/
import M1n3Protocol.Lib.Machine
import M1n3Protocol.Sidecar.Connection
import M1n3Protocol.Stratum.ShareStep

namespace M1n3Protocol.Sidecar

open Checked Client

variable {s s' : System} {p : Proxy}

-- ============================================================ the captured

@[simp] theorem paramText_value (params : List Json) (i : Nat) :
    paramText (params.map Json.value) i = text params i := by
  unfold paramText text
  rw [List.getElem?_map]
  cases params[i]? with
  | none => rfl
  | some v => cases v <;> rfl

theorem text_of_nonempty {params : List Json} {i : Nat}
    (h : (text params i).getD [] ≠ []) :
    ∃ cs, text params i = some cs := by
  cases htext : text params i with
  | none =>
      rw [htext] at h
      exact absurd rfl h
  | some cs => exact ⟨cs, rfl⟩

/-- What the proxy knew of an accepted share when it passed it on. -/
def Proxy.upToDate (p : Proxy) (share : ShareSubmission) (m : Mined) :
    Bool :=
  p.extranonce1 = m.extranonce1
    ∧ p.templateVersion share.jobId &&& ~~~Const.versionRollingMask
      = m.job.version &&& ~~~Const.versionRollingMask
    ∧ (share.versionBits = none →
      m.job.version &&& Const.versionRollingMask = 0)

/-- The version of a share, from a job's where it is up to date. -/
theorem version_eq {version known mask : U32} {bits : Option U32}
    (hknown : known &&& ~~~mask = version &&& ~~~mask)
    (hnone : bits = none → version &&& mask = 0) :
    (known &&& ~~~mask) ||| (bits.getD 0 &&& mask)
      = bits.elim version fun vbits =>
          (version &&& ~~~mask) ||| (vbits &&& mask) := by
  rw [hknown]
  cases bits with
  | some vbits => rfl
  | none =>
      have hsplit := split_by_mask version mask
      rw [hnone rfl] at hsplit
      have hzero : (0 : U32) &&& mask = 0 := BitVec.zero_and
      rw [Option.getD_none, hzero]
      exact hsplit

/-- Of a share the upstream can build the proxy captures the same, where
it is up to date. -/
theorem captured_of_mined {u : Upstream} {r : Request} {id : U64}
    {share : ShareSubmission} {m : Mined} (hid : r.msg.id = some id)
    (hsub : r.submission = some share) (hmined : u.mined share = .ok m)
    (hknew : r.seen.upToDate share m = true) :
    r.seen.captured r.msg = some (id, share.jobId, m.item.2) := by
  unfold Request.submission at hsub
  split at hsub
  case isFalse => cases hsub
  case isTrue hmethod =>
      obtain ⟨params, hparams, rfl⟩ := Option.map_eq_some_iff.mp hsub
      obtain ⟨hen1, hknown, hnone⟩ := of_decide_eq_true hknew
      simp only [Upstream.mined, validateShareParams, Candidate.build,
        bind_eq_ok, require_eq_ok, fetch_eq_ok, pure_eq_ok,
        M1n3Protocol.parseSubmitParams, paramText_value] at hmined hknown
      obtain ⟨_, ⟨_, hjobId, _, hne2, _, hnent, _, hnenonce, -⟩, job, -,
        ntime, hntime, en1, -, en2, hen2, nonce, hnonce, rfl⟩ := hmined
      obtain ⟨jobId, hjobId⟩ := text_of_nonempty hjobId
      obtain ⟨cs2, hcs2⟩ := text_of_nonempty hne2
      obtain ⟨csnt, hcsnt⟩ := text_of_nonempty hnent
      obtain ⟨csnonce, hcsnonce⟩ := text_of_nonempty hnenonce
      simp only [hjobId, hcs2, hcsnt, hcsnonce, Option.getD_some]
        at hknown hen2 hntime hnonce
      have hshare : parseSubmitParams params = some
          { extranonce1 := [], extranonce2 := en2, ntime, nonce,
            version := ((text params 5).bind (Hex.ofRadix 32)).getD 0 } :=
        Option.bind_eq_some_iff.mpr ⟨cs2, hcs2,
          Option.bind_eq_some_iff.mpr ⟨en2, hen2,
          Option.bind_eq_some_iff.mpr ⟨csnt, hcsnt,
          Option.bind_eq_some_iff.mpr ⟨ntime, hntime,
          Option.bind_eq_some_iff.mpr ⟨csnonce, hcsnonce,
          Option.bind_eq_some_iff.mpr ⟨nonce, hnonce, rfl⟩⟩⟩⟩⟩⟩
      have hbits : (M1n3Protocol.parseSubmitParams
          (params.map Json.value)).versionBits
          = (text params 5).bind (Hex.ofRadix 32) :=
        congrArg (Option.bind · (Hex.ofRadix 32)) (paramText_value params 5)
      have hjob : (M1n3Protocol.parseSubmitParams
          (params.map Json.value)).jobId = jobId :=
        congrArg (Option.getD · []) ((paramText_value params 1).trans hjobId)
      have hversion := version_eq hknown hnone
      have hen1 : r.seen.extranonce1 = en1 := hen1
      unfold Proxy.captured
      rw [if_pos hmethod]
      refine Option.bind_eq_some_iff.mpr ⟨id, hid,
        Option.bind_eq_some_iff.mpr ⟨params, hparams,
        Option.bind_eq_some_iff.mpr ⟨jobId, hjobId,
        Option.bind_eq_some_iff.mpr ⟨_, hshare, ?_⟩⟩⟩⟩
      rw [hbits] at hversion
      dsimp only
      rw [hjob, hen1, hversion]
      cases (text params 5).bind (Hex.ofRadix 32) <;> rfl

-- ============================================================= on the way

/-- Messages that are no answers whatever their id. -/
def Json.isNotice (msg : Json) : Bool :=
  msg.method = some "mining.set_extranonce".toList
    ∨ msg.method = some "mining.notify".toList

/-- The id a message is taken to answer. -/
def Message.id (m : Message) : Option U64 :=
  if m.msg.isNotice then none else m.msg.id

/-- The ids of the requests on their way, and of the answers on theirs. -/
def idsOf (requests : List Request) (messages : List Message) : List U64 :=
  requests.filterMap (fun r => r.msg.id) ++ messages.filterMap Message.id

/-- The accepted shares among the messages. -/
def sharesOf (messages : List Message) : List Item :=
  messages.filterMap fun m => m.accepts.map Prod.snd

/-- Answers not yet sent, and messages not yet read. -/
def System.messages (s : System) : List Message := s.answers ++ s.toProxy

/-- The id is that of a request without an answer. -/
def System.unanswered (s : System) (id : U64) : Bool :=
  s.proxy.subscribeId = some id ∨ (s.proxy.pending id).isSome = true
    ∨ id ∈ idsOf s.toUpstream s.messages

/-- Ids are not used again before the answer. When a share is accepted its
request has an id and the proxy was up to date when it passed it on. When
the proxy reads of it, it knows the job with its template. -/
def orderly (s : System) : System.Event → Bool
  | .fromMiner msg => msg.id.all fun id => !s.unanswered id
  | .push msg => msg.isNotice || msg.id.all fun id => !s.unanswered id
  | .accept => s.toUpstream.head?.all fun r =>
      r.msg.id.isSome && r.submission.all fun share =>
        (s.upstream.mined share).toOption.all fun m =>
          r.seen.upToDate share m
  | .fromUpstream => s.toProxy.head?.all fun m =>
      m.accepts.all fun accepted =>
        (s.proxy.jobs accepted.1).any fun job => job.1 = accepted.2.1
  | _ => true

-- ================================================================ the proxy

/-- What one step of the proxy leaves as it is. -/
structure SameAt (p p' : Proxy) (id : U64) : Prop where
  pending : p'.pending id = p.pending id
  subscribeId : p'.subscribeId = some id → p.subscribeId = some id

theorem captured_id {msg : Json} {id : U64} {entry : Text × PendingShare}
    (h : p.captured msg = some (id, entry)) : msg.id = some id := by
  unfold Proxy.captured at h
  split at h
  case isTrue =>
      obtain ⟨id', hid, h⟩ := Option.bind_eq_some_iff.mp h
      obtain ⟨params, -, h⟩ := Option.bind_eq_some_iff.mp h
      obtain ⟨jobId, -, h⟩ := Option.bind_eq_some_iff.mp h
      obtain ⟨share, -, h⟩ := Option.bind_eq_some_iff.mp h
      cases h
      exact hid
  case isFalse => cases h

/-- Only a submission is captured. -/
theorem captured_of_subscribe {msg : Json}
    (h : msg.method = some "mining.subscribe".toList) :
    p.captured msg = none := by
  unfold Proxy.captured
  rw [if_neg]
  rw [h]
  decide +kernel

/-- What the proxy does with a line of the miner. -/
def Proxy.passedOn (p : Proxy) (msg : Json) : Proxy :=
  (p.trackSubscribeRequest msg).interceptSubmitRequest msg

/-- A line does one of three things. -/
inductive PassedOn (p : Proxy) (msg : Json) : Proxy → Prop
  | subscribes {id : U64} (hid : msg.id = some id)
      (hnone : p.captured msg = none) :
      PassedOn p msg { p with subscribeId := some id }
  | submits {id : U64} {entry : Text × PendingShare}
      (hcaptured : p.captured msg = some (id, entry)) :
      PassedOn p msg
        { p with pending := Function.update p.pending id (some entry) }
  | other (hnone : p.captured msg = none) : PassedOn p msg p

theorem passedOn_cases (p : Proxy) (msg : Json) :
    PassedOn p msg (p.passedOn msg) := by
  unfold Proxy.passedOn Proxy.trackSubscribeRequest
  split
  case isTrue hmethod =>
      have hnone : ∀ q : Proxy, q.captured msg = none := fun q =>
        captured_of_subscribe hmethod
      split
      case h_1 id hid =>
          unfold Proxy.interceptSubmitRequest
          rw [hnone]
          exact .subscribes hid (hnone p)
      case h_2 =>
          unfold Proxy.interceptSubmitRequest
          rw [hnone]
          exact .other (hnone p)
  case isFalse =>
      unfold Proxy.interceptSubmitRequest
      split
      case h_1 id entry hcaptured => exact .submits hcaptured
      case h_2 hnone => exact .other hnone

theorem passedOn_sameAt {msg : Json} {id : U64} (h : msg.id ≠ some id) :
    SameAt p (p.passedOn msg) id := by
  have hcases := passedOn_cases p msg
  generalize p.passedOn msg = q at hcases ⊢
  cases hcases with
  | subscribes hid hnone =>
      refine ⟨rfl, fun heq => ?_⟩
      exact absurd (hid.trans heq) h
  | submits hcaptured =>
      refine ⟨Function.update_of_ne (fun heq => ?_) _ _, fun heq => heq⟩
      rw [heq] at h
      exact h (captured_id hcaptured)
  | other => exact ⟨rfl, fun heq => heq⟩

@[simp] theorem passedOn_shareTx (p : Proxy) (msg : Json) :
    (p.passedOn msg).shareTx = p.shareTx := by
  have hcases := passedOn_cases p msg
  generalize p.passedOn msg = q at hcases ⊢
  cases hcases <;> rfl

/-- What the proxy holds for a request on its way: for a share the share,
for anything else nothing. -/
structure Request.Held (r : Request) (p : Proxy) : Prop where
  share : ∀ id entry, r.seen.captured r.msg = some (id, entry) →
    p.pending id = some entry ∧ p.subscribeId ≠ some id
  other : ∀ id, r.msg.id = some id → r.seen.captured r.msg = none →
    p.pending id = none

/-- What it holds for a message: for an accepted share the share, and
nothing for anything else that says yes. -/
structure Message.Held (m : Message) (p : Proxy) : Prop where
  share : ∀ accepted, m.accepts = some accepted →
    m.msg.accepted = true ∧ ∃ id, m.id = some id
      ∧ p.pending id = some (accepted.1, accepted.2.2)
      ∧ p.subscribeId ≠ some id
  other : ∀ id, m.accepts = none → m.id = some id →
    m.msg.accepted = true → p.pending id = none

theorem Request.Held.same {r : Request} {p' : Proxy} (h : r.Held p)
    (hsame : ∀ id, r.msg.id = some id → SameAt p p' id) : r.Held p' := by
  constructor
  · intro id entry hcaptured
    obtain ⟨hpending, hsubscribe⟩ := h.share id entry hcaptured
    have hat := hsame id (captured_id hcaptured)
    exact ⟨hat.pending.trans hpending, fun heq =>
      hsubscribe (hat.subscribeId heq)⟩
  · intro id hid hnone
    exact (hsame id hid).pending.trans (h.other id hid hnone)

theorem Message.Held.same {m : Message} {p' : Proxy} (h : m.Held p)
    (hsame : ∀ id, m.id = some id → SameAt p p' id) : m.Held p' := by
  constructor
  · intro accepted haccepts
    obtain ⟨hyes, id, hid, hpending, hsubscribe⟩ := h.share accepted haccepts
    have hat := hsame id hid
    exact ⟨hyes, id, hid, hat.pending.trans hpending, fun heq =>
      hsubscribe (hat.subscribeId heq)⟩
  · intro id hnone hid hyes
    exact (hsame id hid).pending.trans (h.other id hnone hid hyes)

/-- A request with a new id is held from the start. -/
theorem held_passedOn {msg : Json}
    (hnew : ∀ id, msg.id = some id →
      p.pending id = none ∧ p.subscribeId ≠ some id) :
    Request.Held ⟨msg, p⟩ (p.passedOn msg) := by
  have hcases := passedOn_cases p msg
  generalize p.passedOn msg = q at hcases ⊢
  cases hcases with
  | subscribes hid hnone =>
      refine ⟨fun id entry hcaptured => ?_, fun id hid _ => (hnew id hid).1⟩
      rw [hnone] at hcaptured
      cases hcaptured
  | @submits id entry hcaptured =>
      refine ⟨fun id' entry' hcaptured' => ?_, fun id' _ hnone => ?_⟩
      · have heq := hcaptured.symm.trans hcaptured'
        cases heq
        exact ⟨Function.update_self id _ _,
          (hnew id (captured_id hcaptured)).2⟩
      · exact absurd (hcaptured.symm.trans hnone) (Option.some_ne_none _)
  | other hnone =>
      refine ⟨fun id entry hcaptured => ?_, fun id hid _ => (hnew id hid).1⟩
      rw [hnone] at hcaptured
      cases hcaptured

-- ========================================================= reading an answer

@[simp] theorem setExtranonce1_sameAt (hex : Option Text) (id : U64) :
    SameAt p (p.setExtranonce1 hex) id := by
  unfold Proxy.setExtranonce1
  split <;> exact ⟨rfl, fun h => h⟩

@[simp] theorem notify_sameAt (params : List Json) (id : U64) :
    SameAt p (p.notify params) id := by
  unfold Proxy.notify
  dsimp only
  split <;> exact ⟨rfl, fun h => h⟩

@[simp] theorem setExtranonce1_shareTx (hex : Option Text) :
    (p.setExtranonce1 hex).shareTx = p.shareTx := by
  unfold Proxy.setExtranonce1
  split <;> rfl

@[simp] theorem notify_shareTx (params : List Json) :
    (p.notify params).shareTx = p.shareTx := by
  unfold Proxy.notify
  dsimp only
  split <;> rfl

theorem answered_sameAt {id id' : U64} (h : id ≠ id') (accepted : Bool) :
    SameAt p (p.answered id accepted) id' := by
  have hcleared : Function.update p.pending id none id' = p.pending id' :=
    Function.update_of_ne h.symm _ _
  unfold Proxy.answered
  split
  case h_1 => exact ⟨rfl, fun heq => heq⟩
  case h_2 =>
      dsimp only
      split
      case isTrue => exact ⟨hcleared, fun heq => heq⟩
      case isFalse => split <;> exact ⟨hcleared, fun heq => heq⟩

/-- An answer that is not a notice goes by its id. -/
theorem interceptUpstream_of_not_notice {msg : Json}
    (h : msg.isNotice = false) :
    p.interceptUpstream msg = msg.id.elim p fun id =>
      if p.subscribeId = some id then
        { p.setExtranonce1 (((msg.get "result").bind Json.asArray).bind
            fun result => text result 1) with subscribeId := none }
      else p.answered id msg.accepted := by
  obtain ⟨hextranonce, hnotify⟩ := not_or.mp (of_decide_eq_false h)
  unfold Proxy.interceptUpstream
  rw [if_neg hextranonce, if_neg hnotify]
  cases msg.id <;> rfl

/-- A notice leaves the requests alone. -/
theorem interceptUpstream_of_notice {msg : Json} (h : msg.isNotice = true) :
    (∀ id, SameAt p (p.interceptUpstream msg) id)
      ∧ (p.interceptUpstream msg).shareTx = p.shareTx := by
  unfold Proxy.interceptUpstream
  split
  case isTrue =>
      cases msg.params with
      | none => exact ⟨fun id => ⟨rfl, fun heq => heq⟩, rfl⟩
      | some params => exact ⟨fun id => setExtranonce1_sameAt _ id, by simp⟩
  case isFalse hextranonce =>
      rcases of_decide_eq_true h with hyes | hyes
      · exact absurd hyes hextranonce
      · rw [if_pos hyes]
        cases msg.params with
        | none => exact ⟨fun id => ⟨rfl, fun heq => heq⟩, rfl⟩
        | some params => exact ⟨fun id => notify_sameAt _ id, by simp⟩

/-- A message touches no other request than the one it answers. -/
theorem interceptUpstream_sameAt {m : Message} {id : U64}
    (h : m.id ≠ some id) : SameAt p (p.interceptUpstream m.msg) id := by
  unfold Message.id at h
  split at h
  case isTrue hnotice => exact (interceptUpstream_of_notice hnotice).1 id
  case isFalse hnot =>
      rw [interceptUpstream_of_not_notice (Bool.eq_false_iff.mpr hnot)]
      cases hid : m.msg.id with
      | none => exact ⟨rfl, fun heq => heq⟩
      | some id' =>
          rw [hid] at h
          dsimp only [Option.elim]
          split
          case isTrue =>
              refine ⟨(setExtranonce1_sameAt _ id).pending, fun heq => ?_⟩
              cases heq
          case isFalse =>
              exact answered_sameAt (fun heq => h (congrArg some heq)) _

/-- A message that accepts no share queues none. -/
theorem Message.Held.queues_none {m : Message} (h : m.Held p)
    (hnone : m.accepts = none) :
    (p.interceptUpstream m.msg).shareTx = p.shareTx := by
  have hother := h.other
  unfold Message.id at hother
  split at hother
  case isTrue hnotice => exact (interceptUpstream_of_notice hnotice).2
  case isFalse hnot =>
      rw [interceptUpstream_of_not_notice (Bool.eq_false_iff.mpr hnot)]
      cases hid : m.msg.id with
      | none => rfl
      | some id =>
          dsimp only [Option.elim]
          split
          case isTrue => exact setExtranonce1_shareTx _
          case isFalse =>
              unfold Proxy.answered
              split
              case h_1 => rfl
              case h_2 entry hpending =>
                  dsimp only
                  split
                  case isTrue => rfl
                  case isFalse hyes =>
                      have hyes : m.msg.accepted = true := by
                        simpa using hyes
                      rw [hother id hnone hid hyes] at hpending
                      cases hpending

/-- A message that accepts a share queues it, where its job is known. -/
theorem Message.Held.queues {m : Message} (h : m.Held p)
    {accepted : Text × Item} (haccepts : m.accepts = some accepted)
    (hjob : ((p.jobs accepted.1).any fun job =>
      job.1 = accepted.2.1) = true) :
    (p.interceptUpstream m.msg).shareTx = p.shareTx ++ [accepted.2] := by
  obtain ⟨hyes, id, hid, hpending, hsubscribe⟩ := h.share accepted haccepts
  obtain ⟨job, hjob, htemplate⟩ := (Option.any_eq_true ..).mp hjob
  unfold Message.id at hid
  split at hid
  case isTrue => cases hid
  case isFalse hnot =>
      rw [interceptUpstream_of_not_notice (Bool.eq_false_iff.mpr hnot), hid]
      dsimp only [Option.elim]
      rw [if_neg hsubscribe]
      unfold Proxy.answered
      rw [hpending]
      dsimp only
      rw [hyes, hjob]
      exact congrArg (fun templateId => p.shareTx
        ++ [(templateId, accepted.2.2)]) (of_decide_eq_true htemplate)

-- =========================================================== the invariant

/-- Everything on its way is held, under ids of its own, and the shares
accepted are on the queue or on their way there. -/
structure Forwards (p : Proxy) (requests : List Request)
    (messages : List Message) (accepted : List Item) : Prop where
  distinct : (idsOf requests messages).Nodup
  asked : ∀ r ∈ requests, r.Held p
  told : ∀ m ∈ messages, m.Held p
  books : (p.shareTx ++ sharesOf messages).Perm accepted

section Forwards

variable {r : Request} {requests : List Request} {m : Message}
  {messages messages' : List Message} {accepted : List Item}

theorem mem_idsOf_request {id : U64} (hr : r ∈ requests)
    (hid : r.msg.id = some id) : id ∈ idsOf requests messages :=
  List.mem_append_left _ (List.mem_filterMap.mpr ⟨r, hr, hid⟩)

theorem mem_idsOf_message {id : U64} (hm : m ∈ messages)
    (hid : m.id = some id) : id ∈ idsOf requests messages :=
  List.mem_append_right _ (List.mem_filterMap.mpr ⟨m, hm, hid⟩)

theorem idsOf_request_cons :
    idsOf (r :: requests) messages
      = r.msg.id.toList ++ idsOf requests messages := by
  unfold idsOf
  rw [List.filterMap_cons]
  cases r.msg.id <;> rfl

theorem idsOf_message_cons :
    (idsOf requests (m :: messages)).Perm
      (m.id.toList ++ idsOf requests messages) := by
  unfold idsOf
  rw [List.filterMap_cons]
  cases m.id with
  | none => exact List.Perm.refl _
  | some id => exact List.perm_middle

theorem sharesOf_cons :
    sharesOf (m :: messages)
      = (m.accepts.map Prod.snd).toList ++ sharesOf messages := by
  unfold sharesOf
  rw [List.filterMap_cons]
  cases m.accepts <;> rfl

/-- The order of the messages does not matter. -/
theorem Forwards.perm (h : Forwards p requests messages accepted)
    (hperm : messages'.Perm messages) :
    Forwards p requests messages' accepted := by
  constructor
  · have hids : (idsOf requests messages').Perm (idsOf requests messages) :=
      (hperm.filterMap _).append_left _
    exact hids.nodup_iff.mpr h.distinct
  · exact h.asked
  · exact fun m hm => h.told m (hperm.mem_iff.mp hm)
  · exact ((hperm.filterMap _).append_left _).trans h.books

/-- A request is passed on under a free id. -/
theorem Forwards.passedOn {msg : Json}
    (h : Forwards p requests messages accepted)
    (hfree : ∀ id, msg.id = some id → p.subscribeId ≠ some id
      ∧ p.pending id = none ∧ id ∉ idsOf requests messages) :
    Forwards (p.passedOn msg) (requests ++ [⟨msg, p⟩]) messages
      accepted := by
  have hsame : ∀ id ∈ idsOf requests messages,
      SameAt p (p.passedOn msg) id := by
    intro id hid
    apply passedOn_sameAt
    intro heq
    exact (hfree id heq).2.2 hid
  constructor
  · have hperm : (idsOf (requests ++ [⟨msg, p⟩]) messages).Perm
        (idsOf (⟨msg, p⟩ :: requests) messages) :=
      ((List.perm_append_singleton _ _).filterMap _).append_right _
    rw [hperm.nodup_iff, idsOf_request_cons]
    dsimp only
    cases hid : msg.id with
    | none => exact h.distinct
    | some id => exact List.nodup_cons.mpr ⟨(hfree id hid).2.2, h.distinct⟩
  · intro r hr
    rcases List.mem_append.mp hr with hold | hnew
    · refine (h.asked r hold).same fun id hid => ?_
      exact hsame id (mem_idsOf_request hold hid)
    · rw [List.mem_singleton.mp hnew]
      exact held_passedOn fun id hid => ⟨(hfree id hid).2.1, (hfree id hid).1⟩
  · intro m hm
    refine (h.told m hm).same fun id hid => ?_
    exact hsame id (mem_idsOf_message hm hid)
  · rw [passedOn_shareTx]
    exact h.books

/-- A request is not answered. -/
theorem Forwards.ignored
    (h : Forwards p (r :: requests) messages accepted) :
    Forwards p requests messages accepted := by
  refine ⟨?_, fun r' hr' => h.asked r' (List.mem_cons_of_mem r hr'),
    h.told, h.books⟩
  have hdistinct := h.distinct
  rw [idsOf_request_cons] at hdistinct
  exact hdistinct.of_append_right

/-- A message goes on its way, under a free id or none. -/
theorem Forwards.sent (h : Forwards p requests messages accepted)
    (hid : ∀ id, m.id = some id → id ∉ idsOf requests messages)
    (hheld : m.Held p) :
    Forwards p requests (m :: messages)
      (accepted ++ (m.accepts.map Prod.snd).toList) := by
  refine ⟨?_, h.asked, ?_, ?_⟩
  · rw [idsOf_message_cons.nodup_iff]
    cases hm : m.id with
    | none => exact h.distinct
    | some id => exact List.nodup_cons.mpr ⟨hid id hm, h.distinct⟩
  · intro m' hm'
    rcases List.mem_cons.mp hm' with rfl | hold
    · exact hheld
    · exact h.told m' hold
  · rw [sharesOf_cons]
    refine List.Perm.trans ?_ (h.books.append_right _)
    rw [List.append_assoc]
    exact List.perm_append_comm.append_left _

/-- A request is answered by a message that is held. -/
theorem Forwards.replied
    (h : Forwards p (r :: requests) messages accepted)
    (hid : ∀ id, m.id = some id → r.msg.id = some id) (hheld : m.Held p) :
    Forwards p requests (m :: messages)
      (accepted ++ (m.accepts.map Prod.snd).toList) := by
  refine h.ignored.sent (fun id hm => ?_) hheld
  have hdistinct := h.distinct
  rw [idsOf_request_cons, hid id hm] at hdistinct
  exact (List.nodup_cons.mp hdistinct).1

/-- The proxy reads a message, and where it accepts a share it knows the
job with its template. -/
theorem Forwards.read (h : Forwards p requests (m :: messages) accepted)
    (hjob : ∀ share, m.accepts = some share →
      ((p.jobs share.1).any fun job => job.1 = share.2.1) = true) :
    Forwards (p.interceptUpstream m.msg) requests messages accepted := by
  have hdistinct := idsOf_message_cons.nodup_iff.mp h.distinct
  have hheld := h.told m (List.mem_cons_self ..)
  have hsame : ∀ id ∈ idsOf requests messages,
      SameAt p (p.interceptUpstream m.msg) id := by
    intro id hid
    apply interceptUpstream_sameAt
    intro heq
    rw [heq] at hdistinct
    exact (List.nodup_cons.mp hdistinct).1 hid
  refine ⟨hdistinct.of_append_right, fun r hr => ?_, fun m' hm' => ?_, ?_⟩
  · refine (h.asked r hr).same fun id hid => ?_
    exact hsame id (mem_idsOf_request hr hid)
  · refine (h.told m' (List.mem_cons_of_mem m hm')).same fun id hid => ?_
    exact hsame id (mem_idsOf_message hm' hid)
  · refine List.Perm.trans (List.Perm.of_eq ?_) h.books
    rw [sharesOf_cons]
    cases haccepts : m.accepts with
    | none =>
        rw [hheld.queues_none haccepts]
        rfl
    | some share =>
        rw [hheld.queues haccepts (hjob share haccepts), List.append_assoc]
        rfl

end Forwards

-- ================================================================== a step

/-- An answer has its request's id. -/
theorem reply_id (r : Request) (fields : List (Text × Json)) :
    (r.reply fields).id = r.msg.id := by
  unfold Request.reply Json.id
  rw [Json.get_object, List.lookup_cons_self]
  cases r.msg.get "id" <;> rfl

theorem message_id_le {m : Message} {id : U64} (h : m.id = some id) :
    m.msg.id = some id := by
  unfold Message.id at h
  split at h
  case isTrue => cases h
  case isFalse => exact h

/-- The answer that accepts a share. -/
theorem reply_accepts (r : Request) :
    (r.reply [("result".toList, .bool true)]).accepted = true
      ∧ (r.reply [("result".toList, .bool true)]).isNotice = false := by
  have hid : ("result".toList == "id".toList) = false := by decide +kernel
  have hmethod : ("method".toList == "id".toList) = false := by
    decide +kernel
  have hresult : ("method".toList == "result".toList) = false := by
    decide +kernel
  constructor
  · simp only [Request.reply, Json.accepted, Json.get, List.lookup_cons, hid,
      BEq.rfl, Option.bind, Json.asBool, Option.getD]
  · have hnone : (r.reply [("result".toList, .bool true)]).method = none := by
      simp only [Request.reply, Json.method, Json.get, List.lookup_cons,
        List.lookup_nil, hmethod, hresult, Option.bind]
    unfold Json.isNotice
    rw [hnone]
    decide

/-- The upstream accepts a share, and the proxy was up to date. -/
theorem held_accepted {r : Request} {u : Upstream} {id : U64}
    {share : ShareSubmission} {m : Mined} (hheld : r.Held p)
    (hid : r.msg.id = some id) (hsub : r.submission = some share)
    (hmined : u.mined share = .ok m)
    (hknew : r.seen.upToDate share m = true) :
    Message.Held ⟨r.reply [("result".toList, .bool true)],
      some (share.jobId, m.item)⟩ p := by
  obtain ⟨hyes, hnot⟩ := reply_accepts r
  have hcaptured := captured_of_mined hid hsub hmined hknew
  obtain ⟨hpending, hsubscribe⟩ := hheld.share id _ hcaptured
  refine ⟨fun accepted haccepts => ?_, fun _ hnone => by cases hnone⟩
  cases haccepts
  refine ⟨hyes, id, ?_, hpending, hsubscribe⟩
  unfold Message.id
  dsimp only
  rw [if_neg (Bool.eq_false_iff.mp hnot), reply_id]
  exact hid

/-- Any other answer: a share is not accepted by it. -/
theorem held_answered {r : Request} {fields : List (Text × Json)}
    (hheld : r.Held p)
    (hno : ¬ (r.submission.isSome && (r.reply fields).accepted) = true) :
    Message.Held ⟨r.reply fields, none⟩ p := by
  refine ⟨fun _ hnone => (by cases hnone), fun id _ hid hyes => ?_⟩
  have hid : r.msg.id = some id :=
    (reply_id r fields).symm.trans (message_id_le hid)
  apply hheld.other id hid
  -- what is no submission is not captured
  have hnone : r.submission = none := by
    dsimp only at hyes
    rw [hyes, Bool.and_true] at hno
    exact Option.not_isSome_iff_eq_none.mp hno
  unfold Proxy.captured
  unfold Request.submission at hnone
  split at hnone
  case isTrue hmethod =>
      rw [if_pos hmethod, hid, Option.map_eq_none_iff.mp hnone]
      rfl
  case isFalse hmethod => exact if_neg hmethod

/-- The condition of the run. -/
abbrev System.Forwards (s : System) : Prop :=
  Sidecar.Forwards s.proxy s.toUpstream s.messages s.accepted

theorem not_unanswered {id : U64} (h : (!s.unanswered id) = true) :
    s.proxy.subscribeId ≠ some id ∧ s.proxy.pending id = none
      ∧ id ∉ idsOf s.toUpstream s.messages := by
  rw [Bool.not_eq_true'] at h
  obtain ⟨hsubscribe, hrest⟩ := not_or.mp (of_decide_eq_false h)
  obtain ⟨hpending, hway⟩ := not_or.mp hrest
  exact ⟨hsubscribe, Option.not_isSome_iff_eq_none.mp hpending, hway⟩

/-- A new answer, among the messages. -/
theorem messages_answered (s : System) (m : Message) :
    (s.answers ++ [m] ++ s.toProxy).Perm (m :: s.messages) :=
  (List.perm_append_singleton m s.answers).append_right _

/-- A request is answered. -/
theorem forwards_replied {r : Request} {rest : List Request} {m : Message}
    (h : s.Forwards) (hrequests : s.toUpstream = r :: rest)
    (hid : m.msg.id = r.msg.id) (hheld : m.Held s.proxy) :
    Forwards s.proxy rest (s.answers ++ [m] ++ s.toProxy)
      (s.accepted ++ (m.accepts.map Prod.snd).toList) := by
  unfold System.Forwards at h
  rw [hrequests] at h
  refine (h.replied (fun id hm => ?_) hheld).perm (messages_answered s m)
  exact hid.symm.trans (message_id_le hm)

theorem forwards_accept (h : s.Forwards) (hok : orderly s .accept = true)
    (hs : s.accept = .ok s') : s'.Forwards := by
  unfold System.accept at hs
  split at hs
  case h_1 => cases hs
  case h_2 r rest hrequests =>
      split at hs
      case h_1 => cases hs
      case h_2 share hsub =>
          split at hs
          case h_1 => cases hs
          case h_2 m hmined =>
              cases hs
              have hheld := h.asked r (hrequests ▸ List.mem_cons_self ..)
              simp only [orderly, hrequests, List.head?_cons,
                Option.all_some, hsub, hmined, Except.toOption,
                Bool.and_eq_true] at hok
              obtain ⟨id, hid⟩ := Option.isSome_iff_exists.mp hok.1
              exact forwards_replied h hrequests (reply_id r _)
                (held_accepted hheld hid hsub hmined hok.2)

theorem forwards_answer {fields : List (Text × Json)} (h : s.Forwards)
    (hs : s.answer fields = .ok s') : s'.Forwards := by
  unfold System.answer at hs
  split at hs
  case h_1 => cases hs
  case h_2 r rest hrequests =>
      split at hs
      case isTrue => cases hs
      case isFalse hno =>
          cases hs
          have hheld := h.asked r (hrequests ▸ List.mem_cons_self ..)
          have hdone := forwards_replied h hrequests (reply_id r fields)
            (m := ⟨r.reply fields, none⟩) (held_answered hheld hno)
          rw [Option.map_none, Option.toList_none, List.append_nil] at hdone
          exact hdone

/-- An answer goes from those not yet sent to those not yet read. -/
theorem forwards_respond {i : Nat} {m : Message} (h : s.Forwards)
    (hm : s.answers[i]? = some m) :
    System.Forwards { s with
      answers := s.answers.eraseIdx i
      toProxy := s.toProxy ++ [m] } := by
  refine Forwards.perm h ?_
  obtain ⟨hi, hm⟩ := List.getElem?_eq_some_iff.mp hm
  have hsplit := List.getElem_cons_eraseIdx_perm hi
  rw [hm] at hsplit
  refine List.Perm.trans ?_ (hsplit.append_right s.toProxy)
  show (s.answers.eraseIdx i ++ (s.toProxy ++ [m])).Perm
    (m :: (s.answers.eraseIdx i ++ s.toProxy))
  rw [← List.append_assoc]
  exact List.perm_append_singleton _ _

theorem forwards_push {msg : Json} (h : s.Forwards)
    (hok : orderly s (.push msg) = true) :
    System.Forwards { s with toProxy := s.toProxy ++ [⟨msg, none⟩] } := by
  have hid : ∀ id, Message.id ⟨msg, none⟩ = some id →
      (!s.unanswered id) = true := by
    intro id hid
    have hmsg := message_id_le hid
    unfold Message.id at hid
    split at hid
    case isTrue => cases hid
    case isFalse hnot =>
        rw [orderly, Bool.eq_false_iff.mpr hnot, Bool.false_or, hmsg] at hok
        exact hok
  have hheld : Message.Held ⟨msg, none⟩ s.proxy := by
    refine ⟨fun _ hnone => (by cases hnone), fun id _ hm _ => ?_⟩
    exact (not_unanswered (hid id hm)).2.1
  have hsent := Forwards.sent h
    (fun id hm => (not_unanswered (hid id hm)).2.2) hheld
  rw [Option.map_none, Option.toList_none, List.append_nil] at hsent
  refine hsent.perm ?_
  unfold System.messages
  rw [← List.append_assoc]
  exact List.perm_append_singleton _ _

theorem forwards_fromUpstream {m : Message} {rest : List Message}
    (h : s.Forwards) (hok : orderly s .fromUpstream = true)
    (hmessages : s.toProxy = m :: rest) :
    System.Forwards { s with
      proxy := s.proxy.interceptUpstream m.msg
      toProxy := rest } := by
  have hfirst : Forwards s.proxy s.toUpstream
      (m :: (s.answers ++ rest)) s.accepted := by
    refine Forwards.perm h ?_
    rw [System.messages, hmessages]
    exact List.perm_middle.symm
  refine hfirst.read fun share haccepts => ?_
  simp only [orderly, hmessages, List.head?_cons, Option.all_some,
    haccepts] at hok
  exact hok

theorem forwards_step {c : System.Event} (h : s.Forwards)
    (hok : orderly s c = true) (hs : s.step c = .ok s') : s'.Forwards := by
  cases c with
  | fromMiner msg =>
      cases hs
      refine Forwards.passedOn h fun id hid => not_unanswered ?_
      rw [orderly, hid] at hok
      exact hok
  | upstream u =>
      cases hs
      exact h
  | accept => exact forwards_accept h hok hs
  | answer fields => exact forwards_answer h hs
  | ignore =>
      simp only [System.step] at hs
      split at hs
      case h_1 => cases hs
      case h_2 r rest hrequests =>
          cases hs
          unfold System.Forwards at h
          rw [hrequests] at h
          exact h.ignored
  | respond i =>
      simp only [System.step] at hs
      split at hs
      case h_1 => cases hs
      case h_2 m hm =>
          cases hs
          exact forwards_respond h hm
  | push msg =>
      cases hs
      exact forwards_push h hok
  | fromUpstream =>
      simp only [System.step] at hs
      split at hs
      case h_1 => cases hs
      case h_2 m rest hmessages =>
          cases hs
          exact forwards_fromUpstream h hok hmessages

-- ============================================================== the result

/-- The shares the upstream has accepted whose answers the proxy has not
read. -/
def System.coming (s : System) : List Item := sharesOf s.messages

variable {upstream : Upstream}

/-- In the runs in which ids are not used again before the answer, the
proxy is up to date when it passes an accepted share on, and the job is
still known when it reads of it, the queue holds the shares accepted, each
once and as the upstream took it, but for those whose answers are on their
way, and nothing else. -/
theorem shares_forwarded
    (h : Machine.ReachVia (connection upstream)
      (fun s c => orderly s c = true) s) :
    (s.proxy.shareTx ++ s.coming).Perm s.accepted := by
  have hinv : s.Forwards := by
    refine Machine.ReachVia.invariant (I := System.Forwards) ?_ ?_ h
    · exact ⟨List.Pairwise.nil, fun r hr => (by cases hr),
        fun m hm => (by cases hm), List.Perm.nil⟩
    · intro s c s' hI hok hs
      exact forwards_step hI hok hs
  exact hinv.books

-- ====================================================== the stratum server

/-- What the stratum server builds of a share the upstream may accept. -/
theorem mined_of_server {server : ServerState} {addr : SocketAddr}
    {share : ShareSubmission} {m : Mined} {u : Upstream}
    (hjobs : u.jobs = server.jobs) (hminer : server.miners addr = some u.miner)
    (h : server.mined addr share = .ok m) : u.mined share = .ok m := by
  obtain ⟨c, hlook, hbuild⟩ := bind_eq_ok.mp h
  simp only [ServerState.look, bind_eq_ok, require_eq_ok, fetch_eq_ok,
    pure_eq_ok] at hlook
  obtain ⟨_, hparams, job, hjob, miner, hminer', ntime, hntime, -, -, -, -, -,
    -, rfl⟩ := hlook
  rw [hminer] at hminer'
  cases hminer'
  exact bind_eq_ok.mpr ⟨_, hparams, bind_eq_ok.mpr ⟨job,
    fetch_eq_ok.mpr (hjobs ▸ hjob), bind_eq_ok.mpr ⟨ntime,
    fetch_eq_ok.mpr hntime, hbuild⟩⟩⟩

/-- From the server's announcement of a job the proxy has its template and
its version. -/
theorem notification_recorded {job : MiningJob} {templateId : Text}
    (hjob : job.jobId ≠ []) (htemplate : job.suiTemplateId = some templateId)
    (hne : templateId ≠ []) :
    (p.interceptUpstream (createJobNotification job)).jobs
      = Function.update (if job.cleanJobs then fun _ => none else p.jobs)
          job.jobId (some (templateId, job.version)) := by
  have hmethod : ("method".toList == "id".toList) = false := by
    decide +kernel
  have hparams : ("params".toList == "id".toList) = false := by
    decide +kernel
  have hlast : ("params".toList == "method".toList) = false := by
    decide +kernel
  have hother : some "mining.notify".toList
      ≠ some "mining.set_extranonce".toList := by
    decide +kernel
  unfold Proxy.interceptUpstream createJobNotification
  simp only [Json.method, Json.params, Json.get_object, List.lookup_cons,
    hmethod, hparams, hlast, BEq.rfl, Option.bind_some, Json.asStr,
    Json.asArray]
  rw [if_neg hother, if_pos trivial]
  unfold Proxy.notify
  simp only [text, List.getElem?_cons_zero, List.getElem?_cons_succ,
    Option.bind_some, Json.asStr, Json.asBool, Option.getD_some, htemplate,
    Hex.ofRadix_padded]
  rw [if_pos ⟨hjob, hne⟩]

-- ================================================================== runs

/-- A job with its template. -/
def announced (jobId templateId : String) (version : U32) : MiningJob :=
  { jobId := jobId.toList
    height := 125552
    prevBlockHash := List.replicate 32 0
    coinbase1 := []
    coinbase2 := []
    merkleBranches := []
    version := version
    nbits := 0x1a44b9f2
    ntime := 0x4dd7f5c7
    cleanJobs := true
    merkleRootBase := List.replicate 32 0
    suiTemplateId := some templateId.toList
    mintime := 0
    curtime := 0x4dd7f5c7
    hasWitnessCommitment := false
    transactionData := []
    templateSeq := 0 }

/-- An upstream with these jobs. -/
def upstreamWith (jobs : List MiningJob) : Upstream :=
  { jobs := jobs.map fun job => (job.jobId, job)
    miner := { workerName := [], suiAddress := none, sharesSubmitted := 0,
               extranonce1 := "5e996cc3".toList, difficulty := 1 } }

/-- A share without version bits. -/
def submitLine (id : U64) (jobId nonce : String) : Json :=
  .object [
    ("id".toList, .number (some id)),
    ("method".toList, .string "mining.submit".toList),
    ("params".toList, .array (["rig1", jobId, "307b11be5acab562",
      "4dd7f5c7", nonce].map fun s => .string s.toList))]

/-- The miner's extranonce and a job are announced, and then `more`. -/
def startedOn (job : MiningJob) (more : List System.Event) :
    List System.Event :=
  [.upstream (upstreamWith [job]),
   .push (setExtranonce "5e996cc3".toList), .fromUpstream,
   .push (createJobNotification job), .fromUpstream] ++ more

/-- Two shares, of which one is accepted, answered in the other order. -/
theorem shares_forwarded_twoAnswers :
    ∃ s, Machine.ReachVia (connection (upstreamWith []))
        (fun s c => orderly s c = true) s
      ∧ s.coming = [] ∧ s.proxy.shareTx.length = 1
      ∧ (s.proxy.shareTx ++ s.coming).Perm s.accepted := by
  have hrun : (connection (upstreamWith [])).endsFrom orderly (fun s =>
        s.coming = [] ∧ s.proxy.shareTx.length = 1)
      (startedOn (announced "01" "0xa1" 0x20000000)
        [.fromMiner (submitLine 4 "01" "9546a142"),
         .fromMiner (submitLine 5 "01" "00000000"),
         .accept, .answer [("error".toList, .string "low".toList)],
         .respond 1, .respond 0, .fromUpstream, .fromUpstream])
      (connection (upstreamWith [])).init = true := by
    decide +kernel
  obtain ⟨s, hs, hcheck⟩ :=
    Machine.reachVia_of_endsFrom (fun _ _ h => h) .init hrun
  obtain ⟨hcoming, hone⟩ := of_decide_eq_true hcheck
  exact ⟨s, hs, hcoming, hone, shares_forwarded hs⟩

/-- A run comes to an end with the one share accepted not on the queue as
it was taken. -/
def Strays (queued : Nat) : Prop :=
  ∃ s, Machine.Reach (connection (upstreamWith [])) s
    ∧ s.coming = [] ∧ s.proxy.shareTx.length = queued
    ∧ s.accepted.length = 1
    ∧ ¬ (s.proxy.shareTx ++ s.coming).Perm s.accepted

theorem strays_of_run (cs : List System.Event) {queued : Nat}
    (hrun : (connection (upstreamWith [])).endsIn cs (fun s =>
      decide (s.coming = [] ∧ s.proxy.shareTx.length = queued
        ∧ s.accepted.length = 1 ∧ s.proxy.shareTx ≠ s.accepted)) = true) :
    Strays queued := by
  obtain ⟨s, hs, hcheck⟩ := Machine.reach_of_endsIn hrun
  obtain ⟨hcoming, hqueued, hone, hne⟩ := of_decide_eq_true hcheck
  refine ⟨s, hs, hcoming, hqueued, hone, fun hperm => ?_⟩
  rw [hcoming, List.append_nil] at hperm
  obtain ⟨item, hitem⟩ := List.length_eq_one_iff.mp hone
  rw [hitem] at hperm hne
  exact hne (List.perm_singleton.mp hperm)

/-- A share is lost where a clean job comes before its answer, and queued
with another version where the job's version has bits within the mask and
the miner sends none. -/
theorem share_not_forwarded : Strays 0 ∧ Strays 1 := by
  constructor
  · refine strays_of_run (startedOn (announced "01" "0xa1" 0x20000000)
      [.fromMiner (submitLine 4 "01" "9546a142"), .accept,
       .upstream (upstreamWith [announced "02" "0xa2" 0x20000000]),
       .push (createJobNotification (announced "02" "0xa2" 0x20000000)),
       .respond 0, .fromUpstream, .fromUpstream]) ?_
    decide +kernel
  · refine strays_of_run (startedOn (announced "01" "0xa1" 0x20002000)
      [.fromMiner (submitLine 4 "01" "9546a142"), .accept, .respond 0,
       .fromUpstream]) ?_
    decide +kernel

end M1n3Protocol.Sidecar
