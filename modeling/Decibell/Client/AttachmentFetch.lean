import Decibell.Client.AttachmentRanges

/-!
# Serving an attachment

The main process answers the requests of the renderer for an attachment: it fetches what it needs of
the ciphertext from the server, opens it, and cuts it to what was asked for.
-/

namespace Decibell.Attachments

open Lib Downloader List Option

variable {Key : Type}

/-! ## Requests and answers -/

/-- Where a server's files are, and the token to fetch them with. -/
structure AttachmentTarget where
  host : String
  port : Nat
  jwt : String

/-- A request's query: its text, and two parameters. A missing size is 0, one that is no natural
    number nothing. -/
structure Search where
  text : String
  variant : Option String
  size : Option Nat

/-- A request to the server. -/
structure UpstreamRequest where
  url : String
  authorization : String
  range : Option String
deriving DecidableEq

/-- What the server answers; no body if reading it failed. -/
structure UpstreamReply where
  status : Nat
  statusText : String
  body : Option Bytes

structure DecryptedResponse where
  status : Nat
  statusText : String
  headers : List (String × String)
  body : Bytes
deriving DecidableEq

/-- Cap on the plaintext that answers one request for a range. -/
def maxRangeBytes : Nat := 4 * 1024 * 1024

def text (status : Nat) (statusText msg : String) : DecryptedResponse where
  status
  statusText
  headers := [("Content-Type", "text/plain")]
  body := utf8 msg

def immutable : String := "private, max-age=31536000, immutable"

variable (gcm : AesGcm Key)

/-- The chunks from `i` to `last` are opened, or something is wrong. -/
def openChunks (key : Key) (sealedChunk ctTotal : Nat) (sealed : Bytes) (last i off : Nat) :
    Option Bytes :=
  if i ≤ last then do
    let len := min sealedChunk (ctTotal - i * sealedChunk)
    if len ≤ tagBytes ∨ off + len > sealed.length then none
    let part ← decryptChunk gcm key i (slice sealed off (off + len))
    let parts ← openChunks key sealedChunk ctTotal sealed last (i + 1) (off + len)
    some (part ++ parts)
  else some []
termination_by last + 1 - i

/-- The range that is answered, of the one that is asked for. -/
def capRange (range : PlainRange) : PlainRange :=
  if range.stop - range.start + 1 > maxRangeBytes then
    ⟨range.start, range.start + maxRangeBytes - 1⟩
  else range

/-- A thumbnail that the server sent. -/
def thumbnailResponse (info : AttachmentKeyInfo Key) (search : Search) (resp : UpstreamReply) :
    Option DecryptedResponse :=
  if 200 ≤ resp.status ∧ resp.status ≤ 299 then
    resp.body.map fun sealed =>
      match search.size.bind fun sizePx => decryptThumbnail gcm info.key sizePx sealed with
      | none => text 502 "Bad Gateway" "thumbnail failed to decrypt"
      | some jpeg =>
        { status := 200, statusText := "OK"
          headers := [("Content-Type", "image/jpeg"), ("Content-Length", toString jpeg.length),
            ("Cache-Control", immutable)]
          body := jpeg }
  else some (text resp.status resp.statusText ("upstream " ++ toString resp.status))

def plainResponse (info : AttachmentKeyInfo Key) (range : Option PlainRange) (plan : Plan)
    (plain : Bytes) : DecryptedResponse :=
  let baseHeaders := [("Content-Type", info.mime), ("Accept-Ranges", "bytes"),
    ("Content-Length", toString plain.length)]
  if range.isSome then
    { status := 206, statusText := "Partial Content"
      headers := baseHeaders ++ [("Content-Range", "bytes " ++ toString plan.plainStart ++ "-" ++
        toString plan.plainEnd ++ "/" ++ toString info.sizeBytes)]
      body := plain }
  else
    { status := 200, statusText := "OK", headers := baseHeaders ++ [("Cache-Control", immutable)]
      body := plain }

/-- The ciphertext of the planned chunks, cut out of everything if need be. -/
def sealedSpan (info : AttachmentKeyInfo Key) (plan : Plan) (status : Nat) (raw : Bytes) : Bytes :=
  let sealedChunk := info.chunkBytes + tagBytes
  let ctTotal := ciphertextSize info.sizeBytes info.chunkBytes
  if status = 200 then
    slice raw (plan.firstChunk * sealedChunk) (min ctTotal ((plan.lastChunk + 1) * sealedChunk))
  else raw

/-- Content that the server sent for a plan. -/
def contentResponse (info : AttachmentKeyInfo Key) (range : Option PlainRange) (plan : Plan)
    (resp : UpstreamReply) : Option DecryptedResponse :=
  if resp.status ≠ 200 ∧ resp.status ≠ 206 then
    some (text resp.status resp.statusText ("upstream " ++ toString resp.status))
  else
    resp.body.map fun raw =>
      let sealedChunk := info.chunkBytes + tagBytes
      let ctTotal := ciphertextSize info.sizeBytes info.chunkBytes
      let sealed := sealedSpan info plan resp.status raw
      match openChunks gcm info.key sealedChunk ctTotal sealed plan.lastChunk plan.firstChunk 0 with
      | none => text 502 "Bad Gateway" "attachment failed to decrypt"
      | some parts => plainResponse info range plan (slice parts plan.trimStart plan.trimEnd)

def attachmentUrl (target : AttachmentTarget) (attachmentId : String) (search : Search) : String :=
  "https://" ++ target.host ++ ":" ++ toString target.port ++ "/attachments/" ++ attachmentId ++
    search.text

/-- The request for a range of the ciphertext, or for all there is. -/
def upstreamRequest (target : AttachmentTarget) (attachmentId : String) (search : Search)
    (range : Option String) : UpstreamRequest where
  url := attachmentUrl target attachmentId search
  authorization := "Bearer " ++ target.jwt
  range

/-- The answer, or nothing if fetching from the server failed. -/
def fetchDecryptedWith (info : AttachmentKeyInfo Key) (target : Option AttachmentTarget)
    (attachmentId : String) (search : Search) (rangeHeader : Option String)
    (net : UpstreamRequest → Option UpstreamReply) : Option DecryptedResponse :=
  match target with
  | none => some (text 404 "Not Found" "not connected")
  | some target =>
    if search.variant = some "thumb" then
      (net (upstreamRequest target attachmentId search none)).bind
        (thumbnailResponse gcm info search)
    else
      let total := info.sizeBytes
      let range := (parseRange rangeHeader total).map capRange
      if rangeHeader.any (! ·.isEmpty) ∧ range = none ∧ 0 < total then
        some { status := 416, statusText := "Range Not Satisfiable"
               headers := [("Content-Range", "bytes */" ++ toString total)], body := [] }
      else if total = 0 then
        some { status := 200, statusText := "OK"
               headers := [("Content-Type", info.mime), ("Accept-Ranges", "bytes"),
                 ("Content-Length", "0")]
               body := [] }
      else
        let plan := planRange info range
        (net (upstreamRequest target attachmentId search plan.upstreamRange)).bind
          (contentResponse gcm info range plan)

/-! ## Opening -/

section Opening

open Uploader

variable {gcm} {key : Key} {up : Upload} {c i last off : Nat} {sealed plain : Bytes}

def pieces (gcm : AesGcm Key) (key : Key) (c : Nat) (file : Bytes) (i last : Nat) : Bytes :=
  perChunk c (sealChunk gcm key) i (slice file (i * c) ((last + 1) * c))

theorem pieces_of_le (hc : 0 < c) {file : Bytes} (hi : i * c < file.length) (hle : i ≤ last) :
    pieces gcm key c file i last =
      sealChunk gcm key i (chunk c file i) ++ pieces gcm key c file (i + 1) last := by
  have hstep : (i + 1) * c ≤ (last + 1) * c := Nat.mul_le_mul_right c (by omega)
  have hnext : (i + 1) * c = i * c + c := Nat.succ_mul i c
  have hne : slice file (i * c) ((last + 1) * c) ≠ [] := by
    refine ne_nil_of_length_pos ?_
    rw [length_slice]
    omega
  rw [pieces, pieces, perChunk_of_ne_nil hc hne]
  congr 2
  · rw [chunk, slice, slice, take_take]
    congr 1
    omega
  · rw [slice, slice, drop_take, drop_drop, hnext]
    congr 1
    omega

theorem length_sealChunk (hc : 0 < c) {file : Bytes}
    (hlen : ∀ i plain, (sealChunk gcm key i plain).length = plain.length + tagBytes)
    (hi : i < Downloader.chunkCount file.length c) :
    min (c + tagBytes) (Downloader.ciphertextSize file.length c - i * (c + tagBytes)) =
      (sealChunk gcm key i (chunk c file i)).length := by
  have hlt := (lt_chunkCount hc).1 hi
  rw [hlen, chunk, length_slice, Downloader.ciphertextSize, Nat.mul_add, Nat.succ_mul]
  obtain ⟨k, hk⟩ := Nat.exists_eq_add_of_lt hi
  rcases Nat.lt_or_ge file.length (i * c + c) with hshort | hwhole
  · -- The last chunk.
    have hlast : Downloader.chunkCount file.length c ≤ i + 1 := by
      rw [← not_lt, lt_chunkCount hc, not_lt, Nat.succ_mul]
      exact hshort.le
    rw [show Downloader.chunkCount file.length c = i + 1 by omega, Nat.succ_mul]
    omega
  · rw [hk, Nat.succ_mul, Nat.add_mul]
    omega

theorem openChunks_iff (hc : 0 < c) (h : gcm.Ideal key (up.sealings c))
    (hlast : last < Downloader.chunkCount up.file.length c) (hi : i ≤ last + 1) :
    openChunks gcm key (c + tagBytes) (Downloader.ciphertextSize up.file.length c) sealed last i
        off = some plain ↔
      pieces gcm key c up.file i last <+: sealed.drop off ∧
        plain = slice up.file (i * c) ((last + 1) * c) := by
  have hlen (i : Nat) (plain : Bytes) :
      (sealChunk gcm key i plain).length = plain.length + tagBytes := h.length_encrypt _ _ _
  induction hk : last + 1 - i generalizing i off plain with
  | zero =>
    obtain rfl : i = last + 1 := by omega
    rw [openChunks, if_neg (by omega), pieces, slice, Nat.sub_self, take_zero, perChunk_nil]
    simp [eq_comm]
  | succ k ih =>
    have hcount : i < Downloader.chunkCount up.file.length c := by omega
    have hpos := (lt_chunkCount hc).1 hcount
    have hnext (off : Nat) (plain : Bytes) := @ih (i + 1) off plain (by omega) (by omega)
    have hsplit : slice up.file (i * c) ((last + 1) * c) =
        chunk c up.file i ++ slice up.file ((i + 1) * c) ((last + 1) * c) :=
      (slice_append_slice (Nat.mul_le_mul_right c (by omega))
        (Nat.mul_le_mul_right c (by omega))).symm
    have hpiece : tagBytes < (sealChunk gcm key i (chunk c up.file i)).length := by
      rw [hlen, chunk, length_slice, Nat.succ_mul]
      omega
    rw [openChunks, if_pos (by omega)]
    dsimp only
    rw [length_sealChunk hc hlen hcount, pieces_of_le hc hpos (by omega), hsplit]
    generalize hL : sealChunk gcm key i (chunk c up.file i) = piece at *
    constructor
    · intro hopen
      split at hopen
      · cases hopen
      · next hfits =>
        simp only [bind_eq_bind, bind_eq_some_iff] at hopen
        obtain ⟨part, hpart, parts, hparts, hplain⟩ := hopen
        cases hplain
        obtain ⟨-, rfl, hslice⟩ := (decryptChunk_iff hc h).1 hpart
        obtain ⟨hpieces, rfl⟩ := (hnext _ _).1 hparts
        refine ⟨?_, rfl⟩
        rw [← take_append_drop piece.length (sealed.drop off), drop_drop]
        rw [hL, slice, Nat.add_sub_cancel_left] at hslice
        rw [hslice]
        exact (prefix_append_right_inj piece).2 hpieces
    · rintro ⟨⟨rest, hrest⟩, rfl⟩
      have hdrop : (sealed.drop off).length = piece.length +
          ((pieces gcm key c up.file (i + 1) last).length + rest.length) := by
        rw [← hrest, length_append, length_append, Nat.add_assoc]
      rw [length_drop] at hdrop
      have hslice : slice sealed off (off + piece.length) = piece := by
        rw [slice, Nat.add_sub_cancel_left, ← hrest, append_assoc]
        exact take_left
      have hrest' : pieces gcm key c up.file (i + 1) last <+: sealed.drop (off + piece.length) := by
        rw [← drop_drop, ← hrest, append_assoc, drop_left]
        exact ⟨rest, rfl⟩
      have hpart := (decryptChunk_iff hc h).2
        ⟨hcount, rfl, @rfl _ (sealChunk gcm key i (chunk c up.file i))⟩
      rw [hL] at hpart
      rw [if_neg (by omega), hslice, hpart, (hnext _ _).2 ⟨hrest', rfl⟩]
      rfl

end Opening

/-! ## What is served -/

/-- A response has what is asked for: the file without a `Range` header, or if nothing of it is
    there; else the range's bytes, up to the cap. -/
def Serves (file : Bytes) (rangeHeader : Option String) (resp : DecryptedResponse) : Prop :=
  (rangeHeader = none ∨ rangeHeader = some "" ∨ file = []) ∧
      resp.status = 200 ∧ resp.body = file ∨
    ∃ header r, rangeHeader = some header ∧ ByteRange.Names (trim header.toList) r ∧
      resp.status = 206 ∧ resp.body = (r.bytesOf file).take maxRangeBytes

/-- A request is for bytes that there are none of. -/
def Unsatisfiable (file : Bytes) (rangeHeader : Option String) : Prop :=
  file ≠ [] ∧ ∃ header, rangeHeader = some header ∧
    ∀ r, ByteRange.Names (trim header.toList) r → r.bytesOf file = []

/-- The server has a ciphertext, and sends ranges or all of it. -/
def HasCiphertext (net : UpstreamRequest → Option UpstreamReply)
    (request : Option String → UpstreamRequest) (ciphertext : Bytes) : Prop :=
  ∀ start stop, start ≤ stop → stop < ciphertext.length →
    ∃ reply,
      net (request (some ("bytes=" ++ toString start ++ "-" ++ toString stop))) = some reply ∧
      (reply.status = 206 ∧ reply.body = some (slice ciphertext start (stop + 1)) ∨
        reply.status = 200 ∧ reply.body = some ciphertext)

section Serving

open Uploader

variable {gcm} {info : AttachmentKeyInfo Key} {up : Upload} {target : Option AttachmentTarget}
  {attachmentId : String} {search : Search} {rangeHeader : Option String}
  {net : UpstreamRequest → Option UpstreamReply} {resp : DecryptedResponse}

theorem planned {file : Bytes} {range : Option PlainRange} {plan : Plan}
    (hrange : (parseRange rangeHeader file.length).map capRange = range)
    (hplan : planRange info range = plan) (hsize : info.sizeBytes = file.length)
    (hne : file ≠ []) (hheader : ¬ (rangeHeader.any (! ·.isEmpty) ∧ range = none)) :
    plan.plainStart ≤ plan.plainEnd ∧ plan.plainEnd < file.length ∧
      Serves file rangeHeader
        (plainResponse info range plan (slice file plan.plainStart (plan.plainEnd + 1))) := by
  have hpos : 0 < file.length := length_pos_iff.2 hne
  cases hparse : parseRange rangeHeader file.length with
  | none =>
    rw [hparse, map_none] at hrange
    subst hrange hplan
    change 0 ≤ info.sizeBytes - 1 ∧ info.sizeBytes - 1 < file.length ∧
      Serves file rangeHeader (plainResponse info none _ (slice file 0 (info.sizeBytes - 1 + 1)))
    refine ⟨by omega, by omega, .inl ⟨?_, rfl, ?_⟩⟩
    · cases rangeHeader with
      | none => exact .inl rfl
      | some header =>
        have hempty : header = "" := by simpa using hheader
        exact .inr (.inl (by rw [hempty]))
    · change slice file 0 (info.sizeBytes - 1 + 1) = file
      rw [slice, drop_zero, take_of_length_le (by omega)]
  | some window =>
    obtain ⟨header, rfl⟩ : ∃ header, rangeHeader = some header := by
      cases rangeHeader with
      | none => cases hparse
      | some header => exact ⟨header, rfl⟩
    rw [hparse, map_some] at hrange
    subst hrange hplan
    obtain ⟨r, hnames, hle, hset⟩ := parseRange_iff.1 hparse
    have hstop := ((hset window.stop).1 ⟨hle, Nat.le_refl _⟩).1
    have hcap : (capRange window).start = window.start ∧
        (capRange window).stop = min window.stop (window.start + maxRangeBytes - 1) := by
      have hmax : 0 < maxRangeBytes := by decide
      rw [capRange]
      split
      · refine ⟨rfl, ?_⟩
        change window.start + maxRangeBytes - 1 = min window.stop (window.start + maxRangeBytes - 1)
        omega
      · exact ⟨rfl, by omega⟩
    change (capRange window).start ≤ (capRange window).stop ∧ (capRange window).stop < file.length ∧
      Serves file (some header) (plainResponse info (some (capRange window)) _
        (slice file (capRange window).start ((capRange window).stop + 1)))
    have hmax : 0 < maxRangeBytes := by decide
    rw [hcap.1, hcap.2]
    refine ⟨by omega, by omega, .inr ⟨header, r, rfl, hnames, rfl, ?_⟩⟩
    change slice file window.start _ = _
    rw [← slice_eq_bytesOf hset, slice, slice, take_take]
    congr 1
    omega

/-- What was sent is served if it starts with the planned pieces, else it is an error. -/
theorem contentResponse_eq {range : Option PlainRange} {plan : Plan} {reply : UpstreamReply}
    {raw : Bytes} (h : gcm.Ideal info.key (up.sealings info.chunkBytes))
    (hsize : info.sizeBytes = up.file.length) (hplan : planRange info range = plan)
    (hle : plan.plainStart ≤ plan.plainEnd) (hlt : plan.plainEnd < up.file.length)
    (hstatus : reply.status = 200 ∨ reply.status = 206) (hbody : reply.body = some raw) :
    contentResponse gcm info range plan reply = some
      (if pieces gcm info.key info.chunkBytes up.file plan.firstChunk plan.lastChunk <+:
          sealedSpan info plan reply.status raw then
        plainResponse info range plan (slice up.file plan.plainStart (plan.plainEnd + 1))
      else text 502 "Bad Gateway" "attachment failed to decrypt") := by
  obtain ⟨hchunks, hlast, htrim⟩ := planRange_spec hplan hle hlt
  rw [contentResponse, if_neg (by omega), hbody, map_some]
  dsimp only
  generalize sealedSpan info plan reply.status raw = got
  rw [hsize]
  congr 1
  have hopen (plain : Bytes) := @openChunks_iff _ gcm info.key up info.chunkBytes plan.firstChunk
    plan.lastChunk 0 got plain info.chunkBytes_pos h hlast (by omega)
  rw [drop_zero] at hopen
  by_cases hpieces :
      pieces gcm info.key info.chunkBytes up.file plan.firstChunk plan.lastChunk <+: got
  · rw [if_pos hpieces, (hopen _).2 ⟨hpieces, rfl⟩, ← htrim]
  · rw [if_neg hpieces]
    split
    · rfl
    · next parts hparts => exact absurd ((hopen parts).1 hparts).1 hpieces

theorem serves_of_status (h : gcm.Ideal info.key (up.sealings info.chunkBytes))
    (hsize : info.sizeBytes = up.file.length) (hvariant : search.variant ≠ some "thumb")
    (hresp : fetchDecryptedWith gcm info target attachmentId search rangeHeader net = some resp)
    (hstatus : resp.status = 200 ∨ resp.status = 206) : Serves up.file rangeHeader resp := by
  cases target with
  | none =>
    -- There is no server.
    cases hresp
    exact absurd hstatus (by decide)
  | some target =>
    rw [fetchDecryptedWith, if_neg hvariant] at hresp
    dsimp only at hresp
    split at hresp
    · cases hresp
      exact absurd hstatus (by simp)
    · next hheader =>
      split at hresp
      · next hempty =>
        cases hresp
        have hnil : up.file = [] := eq_nil_of_length_eq_zero (hsize ▸ hempty)
        exact .inl ⟨.inr (.inr hnil), rfl, hnil.symm⟩
      · next hnonempty =>
        obtain ⟨reply, hreply, hresp⟩ := bind_eq_some_iff.1 hresp
        have hne : up.file ≠ [] := fun hnil => hnonempty (by rw [hsize, hnil]; rfl)
        rw [hsize] at hresp hheader
        have hplanned := planned rfl rfl hsize hne fun hbad => hheader
          ⟨hbad.1, hbad.2, Nat.pos_of_ne_zero (hsize ▸ hnonempty)⟩
        obtain ⟨hle, hlt, hserves⟩ := hplanned
        by_cases hok : reply.status = 200 ∨ reply.status = 206
        · cases hbody : reply.body with
          | none =>
            rw [contentResponse, if_neg (by omega), hbody] at hresp
            cases hresp
          | some raw =>
            rw [contentResponse_eq h hsize rfl hle hlt hok hbody, some.injEq] at hresp
            subst hresp
            split
            · exact hserves
            · next hpieces =>
              rw [if_neg hpieces] at hstatus
              exact absurd hstatus (by simp [text])
        · -- The server's error is passed on.
          rw [contentResponse, if_pos (by omega)] at hresp
          cases hresp
          exact absurd hstatus hok

theorem span_nonempty {n c first last : Nat} (hc : 0 < c) (hle : first ≤ last)
    (hlast : last < Downloader.chunkCount n c) :
    first * (c + tagBytes) <
      min ((last + 1) * (c + tagBytes)) (Downloader.ciphertextSize n c) := by
  have hfirst := (lt_chunkCount hc).1 (Nat.lt_of_le_of_lt hle hlast)
  have htags : first * tagBytes ≤ Downloader.chunkCount n c * tagBytes :=
    Nat.mul_le_mul_right _ (by omega)
  refine lt_min ?_ ?_
  · exact Nat.mul_lt_mul_of_pos_right (by omega) (by omega)
  · rw [Downloader.ciphertextSize, Nat.mul_add]
    omega

theorem sealedSpan_of_sent {plan : Plan} {reply : UpstreamReply} {start stop : Nat}
    (hlen : ∀ i plain, (sealChunk gcm info.key i plain).length = plain.length + tagBytes)
    (hsize : info.sizeBytes = up.file.length)
    (hstart : start = plan.firstChunk * (info.chunkBytes + tagBytes))
    (hstop : stop + 1 = min ((plan.lastChunk + 1) * (info.chunkBytes + tagBytes))
      (Downloader.ciphertextSize up.file.length info.chunkBytes))
    (hsent : reply.status = 206 ∧ reply.body =
        some (slice (content gcm info.key info.chunkBytes up.file) start (stop + 1)) ∨
      reply.status = 200 ∧ reply.body = some (content gcm info.key info.chunkBytes up.file)) :
    (reply.status = 200 ∨ reply.status = 206) ∧ ∃ raw, reply.body = some raw ∧
      sealedSpan info plan reply.status raw =
        pieces gcm info.key info.chunkBytes up.file plan.firstChunk plan.lastChunk := by
  have hpieces : slice (content gcm info.key info.chunkBytes up.file) start (stop + 1) =
      pieces gcm info.key info.chunkBytes up.file plan.firstChunk plan.lastChunk := by
    have htotal := @length_content _ gcm info.key _ up.file info.chunkBytes_pos hlen
    rw [hstop, hstart, ← htotal, slice_min_length, content,
      slice_perChunk info.chunkBytes_pos hlen, Nat.zero_add]
    rfl
  rcases hsent with ⟨hstatus, hbody⟩ | ⟨hstatus, hbody⟩
  · exact ⟨.inr hstatus, _, hbody, by rw [sealedSpan, if_neg (by omega), hpieces]⟩
  · refine ⟨.inl hstatus, _, hbody, ?_⟩
    rw [sealedSpan, if_pos hstatus, ← hpieces, hsize, Nat.min_comm, ← hstop, ← hstart]

theorem serves_of_hasCiphertext {t : AttachmentTarget}
    (h : gcm.Ideal info.key (up.sealings info.chunkBytes)) (hsize : info.sizeBytes = up.file.length)
    (hvariant : search.variant ≠ some "thumb")
    (hnet : HasCiphertext net (upstreamRequest t attachmentId search)
      (content gcm info.key info.chunkBytes up.file)) :
    ∃ resp, fetchDecryptedWith gcm info (some t) attachmentId search rangeHeader net = some resp ∧
      (Serves up.file rangeHeader resp ∨
        Unsatisfiable up.file rangeHeader ∧ resp.status = 416) := by
  rw [fetchDecryptedWith, if_neg hvariant]
  dsimp only
  rw [hsize]
  split
  · next hheader =>
    obtain ⟨hany, hnone, hpos⟩ := hheader
    refine ⟨_, rfl, .inr ⟨⟨ne_nil_of_length_pos hpos, ?_⟩, rfl⟩⟩
    obtain ⟨header, rfl⟩ : ∃ header, rangeHeader = some header := by
      cases rangeHeader with
      | none => cases hany
      | some header => exact ⟨header, rfl⟩
    refine ⟨header, rfl, fun r hnames => ?_⟩
    by_contra hne
    -- A byte that is asked for would have made a range.
    obtain ⟨p, hp, hasks⟩ := exists_asked hne
    obtain ⟨window, hle, hset⟩ := exists_window hp hasks
    rw [parseRange_iff.2 ⟨r, hnames, hle, hset⟩] at hnone
    cases hnone
  · next hheader =>
    split
    · next hempty =>
      have hnil : up.file = [] := eq_nil_of_length_eq_zero hempty
      exact ⟨_, rfl, .inl (.inl ⟨.inr (.inr hnil), rfl, hnil.symm⟩)⟩
    · next hnonempty =>
      have hne : up.file ≠ [] := fun hnil => hnonempty (by rw [hnil]; rfl)
      obtain ⟨hle, hlt, hserves⟩ := planned rfl rfl hsize hne fun hbad => hheader
        ⟨hbad.1, hbad.2, Nat.pos_of_ne_zero hnonempty⟩
      set range := (parseRange rangeHeader up.file.length).map capRange
      set plan := planRange info range with hplan
      obtain ⟨hchunks, hlast, -⟩ := planRange_spec rfl hle hlt
      have hrange : plan.upstreamRange = some ("bytes=" ++
          toString (plan.firstChunk * (info.chunkBytes + tagBytes)) ++ "-" ++
          toString (min ((plan.lastChunk + 1) * (info.chunkBytes + tagBytes))
            (Downloader.ciphertextSize up.file.length info.chunkBytes) - 1)) := by
        rw [hplan, planRange, ← hsize]
        exact if_neg (hsize ▸ hnonempty)
      have hlen (i : Nat) (plain : Bytes) :
          (sealChunk gcm info.key i plain).length = plain.length + tagBytes :=
        h.length_encrypt _ _ _
      have htotal := @length_content _ gcm info.key _ up.file info.chunkBytes_pos hlen
      have hspan := span_nonempty info.chunkBytes_pos hchunks hlast
      rw [← hplan] at hspan
      obtain ⟨reply, hreply, hsent⟩ := hnet (plan.firstChunk * (info.chunkBytes + tagBytes))
        (min ((plan.lastChunk + 1) * (info.chunkBytes + tagBytes))
          (Downloader.ciphertextSize up.file.length info.chunkBytes) - 1) (by omega) (by omega)
      obtain ⟨hstatus, raw, hbody, hraw⟩ := sealedSpan_of_sent hlen hsize rfl (by omega) hsent
      refine ⟨_, ?_, .inl hserves⟩
      rw [hrange, hreply, bind_some,
        contentResponse_eq h hsize rfl hle hlt hstatus hbody, hraw, if_pos (prefix_refl _)]

theorem thumbnail_of_status (h : gcm.Ideal info.key (up.sealings info.chunkBytes))
    (hvariant : search.variant = some "thumb")
    (hresp : fetchDecryptedWith gcm info target attachmentId search rangeHeader net = some resp)
    (hstatus : resp.status = 200 ∨ resp.status = 206) :
    ∃ px, search.size = some px ∧ (px, resp.body) ∈ up.thumbnails := by
  cases target with
  | none =>
    cases hresp
    exact absurd hstatus (by decide)
  | some target =>
    rw [fetchDecryptedWith, if_pos hvariant] at hresp
    obtain ⟨reply, hreply, hresp⟩ := bind_eq_some_iff.1 hresp
    rw [thumbnailResponse] at hresp
    split at hresp
    · obtain ⟨sealed, hbody, rfl⟩ := map_eq_some_iff.1 hresp
      cases hopen : search.size.bind fun px => decryptThumbnail gcm info.key px sealed with
      | none =>
        rw [hopen] at hstatus
        exact absurd hstatus (by decide)
      | some jpeg =>
        obtain ⟨px, hpx, hopen⟩ := bind_eq_some_iff.1 hopen
        exact ⟨px, hpx, ((decryptThumbnail_iff info.chunkBytes_pos h).1 hopen).1⟩
    · next hbad =>
      cases hresp
      change reply.status = 200 ∨ reply.status = 206 at hstatus
      omega

/-- Encrypted attachments serve exactly the file.

    * However the file is read during the upload, in whole chunks, the server gets the same
      ciphertext, where uploader and downloader look for it at the same places.
    * A chunk opens only as it was sealed, in its place.
    * An answer with bytes has those asked for, whatever the server sends; there is one if it
      has the ciphertext. -/
theorem attachments_serve_file (h : gcm.Ideal info.key (up.sealings info.chunkBytes))
    (hsize : info.sizeBytes = up.file.length) :
    (∀ reads : List Nat, (∀ read ∈ reads, info.chunkBytes ∣ read) → up.file.length ≤ reads.sum →
      (patches info.chunkBytes gcm info.key up.file reads 0).foldlM Patch.appendTo [] =
        some (content gcm info.key info.chunkBytes up.file)) ∧
    (content gcm info.key info.chunkBytes up.file).length =
      Uploader.ciphertextSize info.chunkBytes up.file.length ∧
    (∀ n, Uploader.ciphertextSize info.chunkBytes n = Downloader.ciphertextSize n info.chunkBytes) ∧
    (∀ i < Downloader.chunkCount up.file.length info.chunkBytes,
      ciphertextRangeForChunks i i info.chunkBytes =
        (ciphertextOffset info.chunkBytes i, ciphertextOffset info.chunkBytes (i + 1)) ∧
      slice (content gcm info.key info.chunkBytes up.file)
          (ciphertextOffset info.chunkBytes i) (ciphertextOffset info.chunkBytes (i + 1)) =
        sealChunk gcm info.key i (chunk info.chunkBytes up.file i)) ∧
    (∀ i bytes plain, decryptChunk gcm info.key i bytes = some plain ↔
      i < Downloader.chunkCount up.file.length info.chunkBytes ∧
        plain = chunk info.chunkBytes up.file i ∧ bytes = sealChunk gcm info.key i plain) ∧
    (∀ target attachmentId search rangeHeader net resp,
      fetchDecryptedWith gcm info target attachmentId search rangeHeader net = some resp →
        resp.status = 200 ∨ resp.status = 206 →
          if search.variant = some "thumb" then
            ∃ px, search.size = some px ∧ (px, resp.body) ∈ up.thumbnails
          else Serves up.file rangeHeader resp) ∧
    ∀ target attachmentId search rangeHeader net, search.variant ≠ some "thumb" →
      HasCiphertext net (upstreamRequest target attachmentId search)
        (content gcm info.key info.chunkBytes up.file) →
      ∃ resp,
        fetchDecryptedWith gcm info (some target) attachmentId search rangeHeader net = some resp ∧
          (Serves up.file rangeHeader resp ∨
            Unsatisfiable up.file rangeHeader ∧ resp.status = 416) := by
  have hlen (i : Nat) (plain : Bytes) :
      (sealChunk gcm info.key i plain).length = plain.length + tagBytes := h.length_encrypt _ _ _
  refine ⟨fun reads => uploaded_content info.chunkBytes_pos hlen,
    length_content info.chunkBytes_pos hlen, fun n => rfl,
    fun i hi => ⟨rfl, slice_content info.chunkBytes_pos hlen hi⟩,
    fun i bytes plain => decryptChunk_iff info.chunkBytes_pos h, ?_,
    fun _ _ _ _ _ hvariant hnet => serves_of_hasCiphertext h hsize hvariant hnet⟩
  intro target attachmentId search rangeHeader net resp hresp hstatus
  split
  · next hvariant => exact thumbnail_of_status h hvariant hresp hstatus
  · next hvariant => exact serves_of_status h hsize hvariant hresp hstatus

end Serving

/-! ## Three bytes -/

/-- A cipher that appends zeros, and opens what an upload seals. -/
def listedGcm (up : Upload) (chunkBytes : Nat) : AesGcm Unit where
  encrypt _ _ _ plain := plain ++ List.replicate tagBytes 0
  decrypt _ nonce aad body tag :=
    if (up.sealings chunkBytes).contains (nonce, aad, body) ∧ tag = List.replicate tagBytes 0 then
      some body
    else none

theorem ideal_listedGcm (up : Upload) (c : Nat) :
    (listedGcm up c).Ideal () (up.sealings c) where
  length_encrypt _ _ plain := by
    change (plain ++ List.replicate tagBytes 0).length = _
    rw [length_append, length_replicate]
  opens nonce aad body tag plain htag := by
    change (if (up.sealings c).contains (nonce, aad, body) ∧ tag = List.replicate tagBytes 0 then
      some body else none) = some plain ↔
        _ ∧ plain ++ List.replicate tagBytes 0 = body ++ tag
    constructor
    · intro hopen
      split at hopen
      · next hsealed =>
        cases hopen
        exact ⟨contains_iff_mem.1 hsealed.1, by rw [hsealed.2]⟩
      · cases hopen
    · rintro ⟨hmem, hsealed⟩
      obtain ⟨rfl, rfl⟩ := append_inj' hsealed (by rw [htag, length_replicate])
      rw [if_pos ⟨contains_iff_mem.2 hmem, rfl⟩]

/-- Three bytes in chunks of two. -/
def threeBytes : Upload where
  file := [10, 20, 30]
  thumbnails := []
  file_safe := by decide
  thumbnails_safe := nofun

def threeBytesInfo : AttachmentKeyInfo Unit where
  key := ()
  chunkBytes := 2
  chunkBytes_pos := Nat.two_pos
  sizeBytes := 3
  mime := "text/plain"
  filename := "three"

theorem attachments_serve_file_threeBytes :
    (Uploader.patches 2 (listedGcm threeBytes 2) () [10, 20, 30] [2, 4] 0).foldlM
      Uploader.Patch.appendTo [] = some (content (listedGcm threeBytes 2) () 2 [10, 20, 30]) := by
  have h := @attachments_serve_file _ _ threeBytesInfo _ (ideal_listedGcm threeBytes 2) rfl
  exact h.1 [2, 4] (by decide) (by decide)

/-- The last two bytes are asked for, of a server without ranges. -/
example : ((fetchDecryptedWith (listedGcm threeBytes 2) threeBytesInfo (some ⟨"h", 1, ""⟩) "7"
    ⟨"", none, some 0⟩ (some "bytes=-2") fun _ => some ⟨200, "OK",
      some (content (listedGcm threeBytes 2) () 2 [10, 20, 30])⟩).map (·.body)) =
        some [20, 30] := by
  decide +kernel

end Decibell.Attachments
