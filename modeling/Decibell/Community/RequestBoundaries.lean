import Decibell.Community.HttpMessages

/-!
# Where one request ends and the next begins

A peer sends delimited requests over one connection, and its bytes arrive in any pieces.
`KeepsBoundaries`: the heads taken for requests are those that were sent, in order, and of each body
nothing but that body was read, all of it before the next head.
-/

namespace Decibell.Community

open Lib List Option

namespace HttpMessage

/-- A request that was handled: its head, and all of its body. -/
def answered (m : HttpMessage) : HttpBytes × HttpBytes := (m.head, m.body)

/-- Requests one right behind the other. -/
def encodeAll (msgs : List HttpMessage) : HttpBytes := msgs.flatMap encode

end HttpMessage

open HttpMessage

variable {msgs : List HttpMessage} {n : Nat} {m : HttpMessage} {read : HttpBytes}
  {handled : List (HttpBytes × HttpBytes)} {unread : HttpBytes}

/-- The first `n` requests were handled, the others not touched. -/
structure AtHead (msgs : List HttpMessage) (n : Nat) (handled : List (HttpBytes × HttpBytes))
    (unread : HttpBytes) : Prop where
  handled : handled = ((msgs.take n).map answered).reverse
  unread : unread = encodeAll (msgs.drop n)

/-- The first `n` requests were handled, and of the next the head and a part of the body read. -/
structure AtBody (msgs : List HttpMessage) (n : Nat) (m : HttpMessage) (read : HttpBytes)
    (handled : List (HttpBytes × HttpBytes)) (unread : HttpBytes) : Prop where
  message : msgs[n]? = some m
  handled : handled = (m.head, read) :: ((msgs.take n).map answered).reverse
  unread : read ++ unread = m.body ++ encodeAll (msgs.drop (n + 1))
  length_le : read.length ≤ m.body.length

/-- What was handled is what was sent, in order, up to a last body in part. -/
def InOrder (msgs : List HttpMessage) (handled : List (HttpBytes × HttpBytes)) : Prop :=
  ∃ n, handled = ((msgs.take n).map answered).reverse ∨ ∃ m read, msgs[n]? = some m ∧
    read <+: m.body ∧ handled = (m.head, read) :: ((msgs.take n).map answered).reverse

theorem AtHead.inOrder (h : AtHead msgs n handled unread) : InOrder msgs handled :=
  ⟨n, .inl h.handled⟩

theorem InOrder.length_le (h : InOrder msgs handled) : handled.length ≤ msgs.length := by
  obtain ⟨n, rfl | ⟨m, read, hm, -, rfl⟩⟩ := h
  · rw [length_reverse, length_map, length_take]
    omega
  · obtain ⟨hlt, -⟩ := List.getElem?_eq_some_iff.1 hm
    rw [length_cons, length_reverse, length_map, length_take]
    omega

theorem AtBody.inOrder (h : AtBody msgs n m read handled unread) : InOrder msgs handled := by
  refine ⟨n, .inr ⟨m, read, h.message, ?_, h.handled⟩⟩
  exact prefix_of_prefix_length_le ⟨unread, rfl⟩ ⟨_, h.unread.symm⟩ h.length_le

theorem AtBody.atHead (h : AtBody msgs n m read handled unread) (hread : read = m.body) :
    AtHead msgs (n + 1) handled unread where
  handled := by
    rw [h.handled, hread, take_add_one, h.message, toList_some, map_append,
      reverse_append]
    rfl
  unread := append_cancel_left (hread ▸ h.unread)

theorem AtBody.eq_body (h : AtBody msgs n m read handled unread)
    (hlen : read.length = m.body.length) : read = m.body :=
  (append_inj h.unread hlen).1

theorem encodeAll_drop (hm : msgs[n]? = some m) : encodeAll (msgs.drop n) =
    m.head ++ (m.body ++ encodeAll (msgs.drop (n + 1))) := by
  obtain ⟨hlt, rfl⟩ := List.getElem?_eq_some_iff.1 hm
  rw [drop_eq_getElem_cons hlt, encodeAll, flatMap_cons, encode, append_assoc]
  rfl

theorem AtHead.atBody (hmsgs : ∀ m ∈ msgs, m.Delimited) {buf wire : HttpBytes} {k : Nat}
    (h : AtHead msgs n handled (buf ++ wire)) (hend : headEnd buf = some k) :
    ∃ m ∈ msgs, buf.take k = m.head ∧
      AtBody msgs n m [] ((m.head, []) :: handled) (buf.drop k ++ wire) := by
  have hall := headEnd_append hend wire
  rw [h.unread] at hall
  obtain ⟨m, hm⟩ : ∃ m, msgs[n]? = some m := by
    by_contra hnone
    rw [not_exists, ← eq_none_iff_forall_ne_some, List.getElem?_eq_none_iff] at hnone
    rw [drop_eq_nil_of_le hnone] at hall
    cases hall
  have hmem := mem_of_getElem? hm
  have hsplit := encodeAll_drop hm
  rw [hsplit, headEnd_head (hmsgs m hmem), some.injEq] at hall
  subst hall
  have hle := (four_le_of_headEnd hend).2
  have hunread := h.unread.trans hsplit
  rw [← take_append_drop m.head.length buf, append_assoc] at hunread
  obtain ⟨hhead, hrest⟩ := append_inj hunread
    (by rw [length_take, Nat.min_eq_left hle])
  exact ⟨m, hmem, hhead, hm, by rw [h.handled], hrest, Nat.zero_le _⟩

theorem AtHead.eq_body {k : Nat} (h : AtHead msgs k ((m.head, read) :: handled) unread)
    (hhandled : handled = ((msgs.take n).map answered).reverse) (hm : msgs[n]? = some m) :
    read = m.body := by
  have hlast : (msgs.take n).map answered ++ [(m.head, read)] = (msgs.take k).map answered := by
    have := congrArg List.reverse h.handled
    rwa [hhandled, reverse_cons, reverse_reverse, reverse_reverse] at this
  obtain ⟨hlt, rfl⟩ := List.getElem?_eq_some_iff.1 hm
  have hn : ((msgs.take n).map answered).length = n := by
    rw [length_map, length_take, Nat.min_eq_left (Nat.le_of_lt hlt)]
  have hat : ((msgs.take k).map answered)[n]? = some (msgs[n].head, read) := by
    rw [← hlast, getElem?_append_right (Nat.le_of_eq hn), hn, Nat.sub_self]
    rfl
  rw [getElem?_map, map_eq_some_iff] at hat
  obtain ⟨m, hm, hanswered⟩ := hat
  rw [getElem?_take, ite_none_right_eq_some] at hm
  obtain rfl : msgs[n] = m := some.inj ((getElem?_eq_getElem hlt).symm.trans hm.2)
  exact (congrArg Prod.snd hanswered).symm

namespace HttpConn

variable {s : HttpConn} {e : Env}

/-- From each request exactly head and body are read, in order, a next head once all bodies before
    are. -/
def KeepsBoundaries (msgs : List HttpMessage) (s : HttpConn) : Prop :=
  InOrder msgs s.handled ∧
    (s.phase = .head → ∃ n, AtHead msgs n s.handled (s.headBuf ++ s.wire))

/-- What was read and what is to come is what was sent. -/
def Bounded (msgs : List HttpMessage) (s : HttpConn) : Prop :=
  match s.phase with
  | .head => s.req = {} ∧ ∃ n, AtHead msgs n s.handled (s.headBuf ++ s.wire)
  | .init body rest => s.headBuf = [] ∧ ∃ n m,
      AtBody msgs n m body s.handled (s.headBuf ++ s.wire) ∧ body.length + rest = m.body.length
  | .patch remain | .thumbnail remain => s.headBuf = [] ∧ ∃ n m read,
      AtBody msgs n m read s.handled (s.headBuf ++ s.wire) ∧
        read.length + remain = m.body.length
  | .closed => InOrder msgs s.handled

theorem Bounded.keepsBoundaries (h : s.Bounded msgs) : s.KeepsBoundaries msgs := by
  unfold Bounded at h
  cases hphase : s.phase with
  | head =>
    rw [hphase] at h
    obtain ⟨-, n, hn⟩ := h
    exact ⟨hn.inOrder, fun _ => ⟨n, hn⟩⟩
  | init =>
    rw [hphase] at h
    obtain ⟨-, n, m, hm, -⟩ := h
    exact ⟨hm.inOrder, fun h => nomatch hphase.symm.trans h⟩
  | patch | thumbnail =>
    rw [hphase] at h
    obtain ⟨-, n, m, read, hm, -⟩ := h
    exact ⟨hm.inOrder, fun h => nomatch hphase.symm.trans h⟩
  | closed =>
    rw [hphase] at h
    exact ⟨h, fun h => nomatch hphase.symm.trans h⟩

/-! ## Reading a body -/

theorem atBody_takeBuffered (h : AtBody msgs n m read s.handled (s.headBuf ++ s.wire)) {k : Nat}
    (hk : read.length + k ≤ m.body.length) :
    AtBody msgs n m (read ++ s.headBuf.take k) (s.takeBuffered k).handled
      ((s.takeBuffered k).headBuf ++ (s.takeBuffered k).wire) where
  message := h.message
  handled := by rw [takeBuffered, consume, h.handled]
  unread := by
    rw [← h.unread]
    simp only [takeBuffered, consume, append_assoc]
    rw [← append_assoc (s.headBuf.take k), take_append_drop]
  length_le := by
    rw [length_append, length_take]
    omega

theorem atBody_takeAll (h : AtBody msgs n m [] s.handled (s.headBuf ++ s.wire))
    (hlen : s.req.contentLength.toNat = m.body.length) :
    AtBody msgs n m (s.headBuf.take s.req.contentLength.toNat)
      (s.takeBuffered s.req.contentLength.toNat).handled
      ((s.takeBuffered s.req.contentLength.toNat).headBuf ++
        (s.takeBuffered s.req.contentLength.toNat).wire) :=
  atBody_takeBuffered h (by rw [length_nil, Nat.zero_add]; exact Nat.le_of_eq hlen)

theorem atBody_takeWire (h : AtBody msgs n m read s.handled (s.headBuf ++ s.wire))
    (hempty : s.headBuf = []) {k : Nat} (hk : read.length + k ≤ m.body.length) :
    AtBody msgs n m (read ++ s.wire.take k) (s.takeWire k).handled
      ((s.takeWire k).headBuf ++ (s.takeWire k).wire) where
  message := h.message
  handled := by rw [takeWire, consume, h.handled]
  unread := by
    rw [← h.unread, hempty]
    simp only [takeWire, consume, hempty, nil_append, append_assoc,
      take_append_drop]
  length_le := by
    rw [length_append, length_take]
    omega

/-! ## The end of a request -/

theorem bounded_sendError (h : InOrder msgs s.handled) (status : Nat) :
    (s.sendError status).Bounded msgs := by
  rw [sendError, sendResponse, finishRequest]
  split
  · rename_i hkeep
    simp [willKeepAlive] at hkeep
  · exact h

theorem bounded_sendResponse (h : AtBody msgs n m read s.handled (s.headBuf ++ s.wire))
    (hread : s.willKeepAlive → read = m.body) (status : Nat) :
    (s.sendResponse status).Bounded msgs := by
  rw [sendResponse, finishRequest]
  split
  · rename_i hkeep
    exact ⟨rfl, n + 1, h.atHead (hread hkeep)⟩
  · exact h.inOrder

theorem bounded_orError {α : Type} {verdict : Except Nat α} {next : α → HttpConn}
    (h : InOrder msgs s.handled) (hnext : ∀ a, verdict = .ok a → (next a).Bounded msgs) :
    (s.orError verdict next).Bounded msgs := by
  cases hv : verdict with
  | ok a => exact hnext a hv
  | error status => exact bounded_sendError h status

/-! ## The endpoints -/

theorem bounded_doInitWithBody (h : AtBody msgs n m read s.handled (s.headBuf ++ s.wire))
    (hread : read = m.body) (body : HttpBytes) : (s.doInitWithBody e body).Bounded msgs :=
  bounded_orError h.inOrder fun _ _ => bounded_sendResponse h (fun _ => hread) _

theorem bounded_handleInit (h : AtBody msgs n m [] s.handled (s.headBuf ++ s.wire))
    (hlen : s.req.contentLength = m.body.length) : (s.handleInit e).Bounded msgs := by
  rw [handleInit]
  split
  · exact bounded_sendError h.inOrder 400
  · have hsize : s.req.contentLength.toNat = m.body.length := by rw [hlen, Int.toNat_natCast]
    have htaken := atBody_takeAll h hsize
    dsimp only
    split
    · rename_i hall
      exact bounded_doInitWithBody htaken (htaken.eq_body (hall.trans hsize)) _
    · -- There is less in the buffer than the body, so it is empty now.
      rename_i hnot
      have hlt : s.headBuf.length < m.body.length := by
        rw [length_take] at hnot
        omega
      have hempty : (s.takeBuffered s.req.contentLength.toNat).headBuf = [] :=
        drop_eq_nil_of_le (by omega)
      refine ⟨hempty, n, m, htaken, ?_⟩
      rw [length_take]
      omega

theorem bounded_finishPatch (h : AtBody msgs n m read s.handled (s.headBuf ++ s.wire))
    (hread : read = m.body) : (s.finishPatch e).Bounded msgs := by
  rw [finishPatch]
  split
  · exact bounded_sendResponse h (fun _ => hread) 204
  · exact bounded_sendError h.inOrder 500

theorem bounded_writePatch (h : AtBody msgs n m read s.handled (s.headBuf ++ s.wire)) {remain : Nat}
    (hlen : read.length + remain = m.body.length) (hempty : remain ≠ 0 → s.headBuf = []) :
    (s.writePatch e remain).Bounded msgs := by
  rw [writePatch]
  split
  · exact bounded_sendError h.inOrder 500
  · split
    · rename_i hzero
      exact bounded_finishPatch h (h.eq_body (by omega))
    · rename_i hremain
      exact ⟨hempty hremain, n, m, read, h, hlen⟩

theorem bounded_handlePatch (h : AtBody msgs n m [] s.handled (s.headBuf ++ s.wire))
    (hlen : s.req.contentLength = m.body.length) (id : Int) :
    (s.handlePatch e id).Bounded msgs := by
  refine bounded_orError h.inOrder fun _ _ => ?_
  have hsize : s.req.contentLength.toNat = m.body.length := by rw [hlen, Int.toNat_natCast]
  dsimp only
  split
  · rename_i hempty
    split
    · exact bounded_finishPatch h (h.eq_body (by rw [length_nil]; omega))
    · exact ⟨hempty, n, m, [], h, by rw [length_nil]; omega⟩
  · refine bounded_writePatch (atBody_takeAll h hsize) ?_ fun hremain =>
      drop_eq_nil_of_le (by omega)
    rw [length_take]
    omega

theorem bounded_finishThumbnail (h : AtBody msgs n m read s.handled (s.headBuf ++ s.wire))
    (hread : read = m.body) : (s.finishThumbnail e).Bounded msgs :=
  bounded_orError h.inOrder fun _ _ => bounded_sendResponse h (fun _ => hread) _

theorem bounded_handleThumbnailUpload (h : AtBody msgs n m [] s.handled (s.headBuf ++ s.wire))
    (hlen : s.req.contentLength = m.body.length) (id : Int) :
    (s.handleThumbnailUpload e id).Bounded msgs := by
  refine bounded_orError h.inOrder fun _ _ => ?_
  have hsize : s.req.contentLength.toNat = m.body.length := by rw [hlen, Int.toNat_natCast]
  have htaken := atBody_takeAll h hsize
  have hremain : (s.headBuf.take s.req.contentLength.toNat).length +
      (s.req.contentLength.toNat - s.headBuf.length) = m.body.length := by
    rw [length_take]
    omega
  dsimp only
  split
  · rename_i hzero
    exact bounded_finishThumbnail htaken (htaken.eq_body (by omega))
  · have hempty : (s.takeBuffered s.req.contentLength.toNat).headBuf = [] :=
      drop_eq_nil_of_le (by omega)
    exact ⟨hempty, n, m, _, htaken, hremain⟩

theorem bounded_handleGet (h : AtBody msgs n m [] s.handled (s.headBuf ++ s.wire))
    (hread : s.willKeepAlive → [] = m.body) (id : Int) : (s.handleGet e id).Bounded msgs := by
  refine bounded_orError h.inOrder fun status _ => ?_
  split
  · exact bounded_sendResponse h hread status
  · exact h.inOrder

/-- Endpoints that read no body keep boundaries if the connection is not used again after one. -/
theorem bounded_route (h : AtBody msgs n m [] s.handled (s.headBuf ++ s.wire))
    (hlen : s.req.contentLength = m.body.length)
    (hclose : s.req.method ∈ ["GET", "HEAD", "DELETE"] → s.willKeepAlive → m.body = [])
    (hcomplete : s.req.method = "POST" → ∀ id,
      parseAttachmentPath s.req.path = some (id, "/complete") →
      completeVerdict e s.uid id = .ok () → s.willKeepAlive → m.body = []) :
    (s.route e).Bounded msgs := by
  rw [route]
  split
  · exact bounded_handleInit h hlen
  · split
    · exact bounded_sendError h.inOrder 404
    · rename_i id tail hpath
      split
      · exact bounded_handlePatch h hlen id
      split
      · rename_i hhead
        exact bounded_orError h.inOrder fun _ _ => bounded_sendResponse h
          (fun hkeep => (hclose (by rw [hhead.1]; decide) hkeep).symm) 200
      split
      · rename_i hget
        exact bounded_handleGet h (fun hkeep => (hclose (by rw [hget.1]; decide) hkeep).symm) id
      split
      · rename_i hdelete
        exact bounded_orError h.inOrder fun _ _ => bounded_sendResponse h
          (fun hkeep => (hclose (by rw [hdelete.1]; decide) hkeep).symm) 204
      split
      · rename_i hpost
        obtain ⟨hpost, rfl⟩ := hpost
        exact bounded_orError h.inOrder fun _ hok => bounded_sendResponse h
          (fun hkeep => (hcomplete hpost id hpath hok hkeep).symm) 200
      split
      · exact bounded_handleThumbnailUpload h hlen id
      · exact bounded_sendError h.inOrder 404

/-! ## The steps -/

end HttpConn

/-- A completed upload's request has a body, on a connection to be used again. -/
def HttpRequest.ForgetsBody (e : Env) (req : HttpRequest) : Prop :=
  0 < req.contentLength ∧ req.asksKeepAlive ∧ req.method = "POST" ∧ req.authorizationToken ≠ "" ∧
    ∃ uid id, e.verifyJwt req.authorizationToken = some uid ∧
      parseAttachmentPath req.path = some (id, "/complete") ∧ completeVerdict e uid id = .ok ()

namespace HttpConn

variable {s s' : HttpConn} {e : Env}

/-- The head that has been read is that of such a request. -/
def Forgets (s : HttpConn) : Label → Prop
  | .gotHead e => s.phase = .head ∧ ∃ n req, headEnd s.headBuf = some n ∧ n ≤ headBufSize ∧
      s.req.parseHead (latin1 (s.headBuf.take n)) = some req ∧ req.ForgetsBody e
  | _ => False

theorem parseAttachmentPath_init : parseAttachmentPath "/attachments/init".toList = none := by
  decide +kernel

theorem bounded_onHeadReady (h : AtBody msgs n m [] s.handled (s.headBuf ++ s.wire))
    (hlen : s.req.contentLength = m.body.length) (hforgets : ¬ s.req.ForgetsBody e) :
    (s.onHeadReady e).Bounded msgs := by
  have hpos : m.body ≠ [] → 0 < s.req.contentLength := by
    intro hbody
    have := length_pos_iff.2 hbody
    omega
  rw [onHeadReady]
  dsimp only
  split
  · refine bounded_sendError ?_ 401
    exact h.inOrder
  · rename_i htoken
    split
    · refine bounded_sendError ?_ 401
      exact h.inOrder
    · rename_i uid huid
      refine bounded_route h hlen ?_ ?_
      · intro hmethod hkeep
        by_contra hbody
        simp [willKeepAlive, hpos hbody, hmethod] at hkeep
      · intro hpost id hpath hok hkeep
        by_contra hbody
        rw [willKeepAlive, Bool.and_eq_true] at hkeep
        exact hforgets ⟨hpos hbody, hkeep.1, hpost, htoken, uid, id, huid, hpath, hok⟩

theorem bounded_onHead (hmsgs : ∀ m ∈ msgs, m.Delimited) (hreq : s.req = {})
    (h : AtHead msgs n s.handled (s.headBuf ++ s.wire)) {k : Nat}
    (hend : headEnd s.headBuf = some k)
    (hforgets : ∀ req, k ≤ headBufSize → s.req.parseHead (latin1 (s.headBuf.take k)) = some req →
      ¬ req.ForgetsBody e) : (s.onHead e k).Bounded msgs := by
  obtain ⟨m, hm, hhead, hbody⟩ := h.atBody hmsgs hend
  rw [onHead]
  dsimp only
  split
  · exact bounded_sendError h.inOrder 431
  · rename_i hsize
    rw [hhead]
    split
    · exact bounded_sendError hbody.inOrder 400
    · rename_i req hparse
      refine bounded_onHeadReady hbody ?_ ?_
      · exact (hmsgs m hm).contentLength (hreq ▸ hparse)
      · exact hforgets req (by omega) (hhead ▸ hparse)

theorem not_keepsBoundaries_onHead (hmsgs : ∀ m ∈ msgs, m.Delimited) (hreq : s.req = {})
    (h : AtHead msgs n s.handled (s.headBuf ++ s.wire)) {k : Nat}
    (hend : headEnd s.headBuf = some k)
    (hk : k ≤ headBufSize) {req : HttpRequest}
    (hparse : s.req.parseHead (latin1 (s.headBuf.take k)) = some req)
    (hforgets : req.ForgetsBody e) : ¬ (s.onHead e k).KeepsBoundaries msgs := by
  obtain ⟨m, hm, hhead, hbody⟩ := h.atBody hmsgs hend
  obtain ⟨hpos, hkeep, hpost, htoken, uid, id, huid, hpath, hok⟩ := hforgets
  have hlen := (hmsgs m hm).contentLength (hreq ▸ hhead ▸ hparse)
  have hroute : (s.onHead e k).phase = .head ∧
      (s.onHead e k).handled = (m.head, []) :: s.handled := by
    have hnot : req.path ≠ "/attachments/init".toList := by
      intro hinit
      rw [hinit, parseAttachmentPath_init] at hpath
      cases hpath
    simp only [onHead, Nat.not_lt.2 hk, if_false, hparse, onHeadReady, htoken, huid, route, hpost,
      hnot, and_false, hpath, handleComplete, orError, hok]
    simp [sendResponse, finishRequest, willKeepAlive, hkeep, hhead]
  rintro ⟨-, hnext⟩
  obtain ⟨j, hj⟩ := hnext hroute.1
  rw [hroute.2] at hj
  have hempty := hj.eq_body h.handled hbody.message
  rw [← hempty, length_nil] at hlen
  omega

/-- Connections over which these requests come. -/
def system (msgs : List HttpMessage) : System HttpConn Label where
  init s := s = { wire := encodeAll msgs }
  step s a s' := s.step a = some s'

theorem bounded_init : HttpConn.Bounded msgs { wire := encodeAll msgs } := ⟨rfl, 0, rfl, rfl⟩

theorem bounded_step (hmsgs : ∀ m ∈ msgs, m.Delimited) (hs : s.Bounded msgs) {a : Label}
    (hstep : s.step a = some s') (hforgets : ¬ s.Forgets a) : s'.Bounded msgs := by
  cases a with
  | recv k =>
    rw [step, ite_none_right_eq_some] at hstep
    obtain ⟨⟨hphase, -⟩, hs'⟩ := hstep
    cases hs'
    rw [Bounded, hphase] at hs ⊢
    obtain ⟨hreq, n, hn⟩ := hs
    refine ⟨hreq, n, hn.handled, ?_⟩
    rw [append_assoc, take_append_drop]
    exact hn.unread
  | gotHead e =>
    rw [step, ite_none_right_eq_some] at hstep
    obtain ⟨hphase, hstep⟩ := hstep
    obtain ⟨k, hend, rfl⟩ := map_eq_some_iff.1 hstep
    rw [Bounded, hphase] at hs
    obtain ⟨hreq, n, hn⟩ := hs
    exact bounded_onHead hmsgs hreq hn hend fun req hk hparse h =>
      hforgets ⟨hphase, k, req, hend, hk, hparse, h⟩
  | gotBody e =>
    rw [step] at hstep
    cases hphase : s.phase with
    | head | closed => rw [hphase] at hstep; cases hstep
    | init body rest =>
      rw [hphase, ite_none_right_eq_some] at hstep
      rw [Bounded, hphase] at hs
      obtain ⟨hrest, hs'⟩ := hstep
      cases hs'
      obtain ⟨hempty, n, m, hm, hlen⟩ := hs
      refine bounded_doInitWithBody (atBody_takeWire hm hempty (Nat.le_of_eq hlen)) ?_ _
      refine (atBody_takeWire hm hempty (Nat.le_of_eq hlen)).eq_body ?_
      rw [length_append, length_take, Nat.min_eq_left hrest, hlen]
    | patch remain =>
      rw [hphase, ite_none_right_eq_some] at hstep
      rw [Bounded, hphase] at hs
      obtain ⟨hwant, hs'⟩ := hstep
      cases hs'
      obtain ⟨hempty, n, m, read, hm, hlen⟩ := hs
      refine bounded_writePatch (atBody_takeWire hm hempty (by omega)) ?_ fun _ => hempty
      rw [length_append, length_take, Nat.min_eq_left hwant]
      omega
    | thumbnail remain =>
      rw [hphase, ite_none_right_eq_some] at hstep
      rw [Bounded, hphase] at hs
      obtain ⟨hwant, hs'⟩ := hstep
      cases hs'
      obtain ⟨hempty, n, m, read, hm, hlen⟩ := hs
      have htaken := atBody_takeWire hm hempty (k := min remain (64 * 1024)) (by omega)
      have hread : (read ++ s.wire.take (min remain (64 * 1024))).length +
          (remain - min remain (64 * 1024)) = m.body.length := by
        rw [length_append, length_take, Nat.min_eq_left hwant]
        omega
      split
      · exact bounded_finishThumbnail htaken (htaken.eq_body (by omega))
      · exact ⟨hempty, n, m, _, htaken, hread⟩
  | fail =>
    rw [step] at hstep
    split at hstep
    · cases hstep
    · cases hstep
      exact hs.keepsBoundaries.1

theorem bounded_of_given (hmsgs : ∀ m ∈ msgs, m.Delimited)
    (h : ((system msgs).given fun s a => ¬ s.Forgets a).Reachable s) : s.Bounded msgs := by
  refine System.reachable_invariant ?_ ?_ h
  · rintro _ rfl
    exact bounded_init
  · rintro s a s' hs ⟨hstep, hforgets⟩
    exact bounded_step hmsgs hs hstep hforgets

theorem not_keepsBoundaries_of_forgets (hmsgs : ∀ m ∈ msgs, m.Delimited) (hs : s.Bounded msgs)
    {a : Label} (hstep : s.step a = some s') (hforgets : s.Forgets a) :
    ¬ s'.KeepsBoundaries msgs := by
  cases a with
  | gotHead e =>
    obtain ⟨hphase, k, req, hend, hk, hparse, hforgets⟩ := hforgets
    rw [step, if_pos hphase, hend, map_some, some.injEq] at hstep
    subst hstep
    rw [Bounded, hphase] at hs
    obtain ⟨hreq, n, hn⟩ := hs
    exact not_keepsBoundaries_onHead hmsgs hreq hn hend hk hparse hforgets
  | recv | gotBody | fail => exact hforgets.elim

/-- Where no body is forgotten boundaries are kept; and still after the next step exactly when it
    forgets none. -/
theorem boundaries_kept (hmsgs : ∀ m ∈ msgs, m.Delimited)
    (h : ((system msgs).given fun s a => ¬ s.Forgets a).Reachable s) :
    s.KeepsBoundaries msgs ∧
      ∀ a s', (system msgs).step s a s' → (s'.KeepsBoundaries msgs ↔ ¬ s.Forgets a) := by
  have hs := bounded_of_given hmsgs h
  refine ⟨hs.keepsBoundaries, fun a s' hstep => ⟨fun hkeeps hforgets => ?_, fun hforgets => ?_⟩⟩
  · exact not_keepsBoundaries_of_forgets hmsgs hs hstep hforgets hkeeps
  · exact (bounded_step hmsgs hs hstep hforgets).keepsBoundaries

/-! ## Two connections -/

/-- The state after some labels; what is no step changes nothing. -/
def after (s : HttpConn) (as : List Label) : HttpConn := as.foldl (fun s a => (s.step a).getD s) s

theorem reachable_after {C : HttpConn → Label → Prop} (hs : ((system msgs).given C).Reachable s)
    {as : List Label} (h : System.Meets (fun s a => (s.step a).getD s) C s as) :
    ((system msgs).given C).Reachable (s.after as) := by
  induction as generalizing s with
  | nil => exact hs
  | cons a as ih =>
    refine ih (s := (s.step a).getD s) ?_ h.2
    cases hstep : s.step a with
    | none => exact hs
    | some s' => exact .step a hs ⟨hstep, h.1⟩

instance (req : HttpRequest) : Decidable (req.ForgetsBody e) :=
  decidable_of_iff (0 < req.contentLength ∧ req.asksKeepAlive ∧ req.method = "POST" ∧
      req.authorizationToken ≠ "" ∧ ((e.verifyJwt req.authorizationToken).any fun uid =>
        (parseAttachmentPath req.path).any fun p => p.2 = "/complete" &&
          (completeVerdict e uid p.1).toBool) = true) <| by
    simp only [HttpRequest.ForgetsBody, Option.any_eq_true, Bool.and_eq_true, decide_eq_true_eq]
    refine and_congr_right' <| and_congr_right' <| and_congr_right' <| and_congr_right' ⟨?_, ?_⟩
    · rintro ⟨uid, huid, ⟨id, _⟩, hpath, rfl, hok⟩
      refine ⟨uid, id, huid, hpath, ?_⟩
      cases hv : completeVerdict e uid id with
      | ok => rfl
      | error => rw [hv] at hok; cases hok
    · rintro ⟨uid, id, huid, hpath, hok⟩
      exact ⟨uid, huid, (id, _), hpath, rfl, by rw [hok]; rfl⟩

instance (s : HttpConn) : (a : Label) → Decidable (s.Forgets a)
  | .gotHead e =>
    decidable_of_iff (s.phase = .head ∧ ((headEnd s.headBuf).any fun n => n ≤ headBufSize &&
        (s.req.parseHead (latin1 (s.headBuf.take n))).any fun req =>
          req.ForgetsBody e) = true) <| by
      simp only [Forgets, Option.any_eq_true, Bool.and_eq_true, decide_eq_true_eq]
      refine and_congr_right' ⟨?_, ?_⟩
      · rintro ⟨n, hend, hn, req, hparse, h⟩
        exact ⟨n, req, hend, hn, hparse, h⟩
      · rintro ⟨n, req, hend, hn, hparse, h⟩
        exact ⟨n, hend, hn, req, hparse, h⟩
  | .recv _ | .gotBody _ | .fail => inferInstanceAs (Decidable False)

def ascii (text : String) : HttpBytes := text.toList.map fun c => UInt8.ofNat c.toNat

/-- Asks how much of an upload is there. -/
def askStatus : HttpMessage where
  requestLine := ascii "HEAD /attachments/7 HTTP/1.1"
  fields := [(ascii "Authorization", ascii " Bearer token")]
  body := []

/-- A piece of an upload. -/
def sendPiece : HttpMessage where
  requestLine := ascii "PATCH /attachments/7 HTTP/1.1"
  fields := [(ascii "Authorization", ascii " Bearer token"), (ascii "Upload-Offset", ascii " 0"),
    (ascii "Content-Length", ascii " 5")]
  body := [1, 2, 3, 4, 5]

/-- Completes an upload. The body reads as a request of its own. -/
def completeUpload : HttpMessage where
  requestLine := ascii "POST /attachments/7/complete HTTP/1.1"
  fields := [(ascii "Authorization", ascii " Bearer token"), (ascii "Content-Length", ascii " 61")]
  body := askStatus.encode

/-- An upload that is going on. -/
def uploading : Env where
  verifyJwt _ := some 1
  getAttachment _ := some {
    uploadStatus := "uploading", uploaderUid := 1, expectedSize := 0, storagePath := "7_file"
    channelId := "general", purgedAt := 0, thumbnailSizeBytes := 0, thumbnailSizesMask := 0 }
  isMember _ := true
  allowed _ _ _ := true
  maxAttachmentBytes := 0
  parseInit _ := none
  allowInit _ := true
  getChannel _ := some 0
  freeSpace := none
  minFreeBytes := 0
  fileExists _ := true
  fileSize _ := some 0
  succeeds _ := true

theorem delimited_askStatus : askStatus.Delimited where
  requestLine := by decide +kernel
  fields := by decide +kernel
  tells := by
    intro field hf hname
    obtain rfl := mem_singleton.1 hf
    exact absurd hname (by decide +kernel)
  told hbody := absurd rfl hbody
  length := by decide +kernel

theorem delimited_sendPiece : sendPiece.Delimited where
  requestLine := by decide +kernel
  fields := by decide +kernel
  tells := by
    intro field hf hname
    simp only [sendPiece, mem_cons, not_mem_nil, or_false] at hf
    rcases hf with rfl | rfl | rfl
    · exact absurd hname (by decide +kernel)
    · exact absurd hname (by decide +kernel)
    · exact ⟨[' '], ['5'], [], by decide +kernel, by simp, by simp, by simp, by decide⟩
  told _ := ⟨_, .tail _ (.tail _ (.head _)), by decide +kernel⟩
  length := by decide +kernel

theorem delimited_completeUpload : completeUpload.Delimited where
  requestLine := by decide +kernel
  fields := by decide +kernel
  tells := by
    intro field hf hname
    simp only [completeUpload, mem_cons, not_mem_nil, or_false] at hf
    rcases hf with rfl | rfl
    · exact absurd hname (by decide +kernel)
    · exact ⟨[' '], ['6', '1'], [], by decide +kernel, by simp, by simp, by simp, by decide⟩
  told _ := ⟨_, .tail _ (.head _), by decide +kernel⟩
  length := by decide +kernel

/-- Two requests in pieces, one ending in a body, one in a head. -/
def inPieces : List Label :=
  [.recv 101, .gotHead uploading, .gotBody uploading, .recv 30, .recv 31, .gotHead uploading]

theorem boundaries_kept_inPieces :
    (after { wire := encodeAll [sendPiece, askStatus] } inPieces).KeepsBoundaries
      [sendPiece, askStatus] ∧
    (after { wire := encodeAll [sendPiece, askStatus] } inPieces).handled =
      [answered askStatus, answered sendPiece] := by
  have hmsgs : ∀ m ∈ [sendPiece, askStatus], m.Delimited := by
    simp only [List.forall_mem_cons, List.not_mem_nil, false_imp_iff, implies_true, and_true]
    exact ⟨delimited_sendPiece, delimited_askStatus⟩
  exact ⟨(boundaries_kept hmsgs (reachable_after (.init rfl) (by decide +kernel))).1,
    by decide +kernel⟩

/-- One request is sent, two are handled: the second is the first's body. -/
theorem not_boundaries_kept : ¬ ∀ msgs : List HttpMessage, (∀ m ∈ msgs, m.Delimited) →
    ∀ s, (system msgs).Reachable s → s.KeepsBoundaries msgs := by
  intro h
  have hreachable : (system [completeUpload]).Reachable
      (after { wire := encodeAll [completeUpload] }
        [.recv 151, .gotHead uploading, .gotHead uploading]) :=
    (reachable_after (C := fun _ _ => True) (.init rfl) (by decide +kernel)).of_given
  have hkeeps := h [completeUpload] (fun m hm => List.mem_singleton.1 hm ▸ delimited_completeUpload)
    _ hreachable
  exact absurd hkeeps.1.length_le (by decide +kernel)

end HttpConn

end Decibell.Community
