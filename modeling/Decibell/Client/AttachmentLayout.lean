import Decibell.Community.Text
import Decibell.Lib.Bytes
import Decibell.Lib.Chunks

/-!
# Sealed attachments

An attachment of an encrypted channel is sealed chunk by chunk with a key of its own, which travels
in the message. The renderer seals it while it uploads it, and the main process opens what it
downloads; each has the layout in its own words.
-/

namespace Decibell.Attachments

open Lib List

/-- AES-256-GCM: `encrypt` is WebCrypto's, which appends the tag, `decrypt` Node's, which gives
    nothing if the tag is wrong. -/
structure AesGcm (Key : Type) where
  encrypt : Key → (iv aad plain : Bytes) → Bytes
  decrypt : Key → (nonce aad body tag : Bytes) → Option Bytes

def tagBytes : Nat := 16
/-- The uploader's chunks; the layout takes any other length. -/
def defaultChunkBytes : Nat := 64 * 1024
def aadDomain : Bytes := utf8 "decibell-att-v1"
/-- `Number.MAX_SAFE_INTEGER` -/
def maxSafeInteger : Nat := 2 ^ 53 - 1

variable {Key : Type}

/-! ## The renderer seals -/

namespace Uploader

/-- `setBigUint64` keeps the low eight bytes. -/
def u64le (n : Nat) : Bytes := leBytes 8 n

/-- A chunk's nonce (kind 1) is by number, a thumbnail's (2) by size. -/
def iv (n : Nat) (kind : UInt8) : Bytes := u64le n ++ [0, 0, 0, kind]

/-- The associated data of a chunk (0) or a thumbnail (1). -/
def additionalData (kind : UInt8) (n : Nat) : Bytes := aadDomain ++ [kind] ++ u64le n

section

variable (chunkBytes : Nat)

def chunkCount (sizeBytes : Nat) : Nat := if sizeBytes = 0 then 0 else sizeBytes ⌈/⌉ chunkBytes

/-- The size of the ciphertext that the server is told to expect. -/
def ciphertextSize (sizeBytes : Nat) : Nat := sizeBytes + chunkCount chunkBytes sizeBytes * tagBytes

/-- Where in the ciphertext a chunk is. -/
def ciphertextOffset (index : Nat) : Nat := index * (chunkBytes + tagBytes)

variable (gcm : AesGcm Key) (key : Key)

def sealChunk (index : Nat) (plain : Bytes) : Bytes :=
  gcm.encrypt key (iv index 1) (additionalData 0 index) plain

/-- The chunks of a span from a position on, from number `i` on. -/
def sealFrom (plain : Bytes) (off i : Nat) : Bytes :=
  if off < plain.length ∧ 0 < chunkBytes then
    sealChunk gcm key i (slice plain off (min (off + chunkBytes) plain.length)) ++
      sealFrom plain (off + chunkBytes) (i + 1)
  else []
termination_by plain.length - off

def sealSpan (firstIndex : Nat) (plain : Bytes) : Bytes :=
  sealFrom chunkBytes gcm key plain 0 firstIndex

def sealThumbnail (sizePx : Nat) (jpeg : Bytes) : Bytes :=
  gcm.encrypt key (iv sizePx 2) (additionalData 1 sizePx) jpeg

/-- A request that appends to an upload. -/
structure Patch where
  uploadOffset : Nat
  body : Bytes
deriving DecidableEq

/-- The requests that upload a file from a position on; `reads` is how much is read for each. -/
def patches (source : Bytes) : (reads : List Nat) → (offset : Nat) → List Patch
  | [], _ => []
  | read :: reads, offset =>
    if offset < source.length then
      let stop := min (offset + read) source.length
      ⟨ciphertextOffset chunkBytes (offset / chunkBytes),
        sealSpan chunkBytes gcm key (offset / chunkBytes) (slice source offset stop)⟩ ::
          patches source reads stop
    else []

end

def maxUploadChunkBytes : Nat := 8 * 1024 * 1024
def minLimitBps : Nat := 100 * 1024

def effectiveRate (uploadLimitBps : Nat) : Nat :=
  if uploadLimitBps > 0 then max minLimitBps uploadLimitBps else 0

/-- How much is read for a request, under the current limit. -/
def uploadChunkBytes (uploadLimitBps : Nat) : Nat :=
  let rate := effectiveRate uploadLimitBps
  if rate = 0 then maxUploadChunkBytes
  else
    let halfSecond := rate / 2 / defaultChunkBytes * defaultChunkBytes
    min maxUploadChunkBytes (max defaultChunkBytes halfSecond)

end Uploader

/-! ## The main process opens -/

namespace Downloader

/-- An attachment's key, and what the message says of it; one without a chunk length is not
    registered. -/
structure AttachmentKeyInfo (Key : Type) where
  key : Key
  chunkBytes : Nat
  chunkBytes_pos : 0 < chunkBytes
  sizeBytes : Nat
  mime : String
  filename : String

/-- `writeBigUInt64LE` throws if a number does not fit. -/
def u64le (n : Nat) : Option Bytes := if n < 2 ^ 64 then some (leBytes 8 n) else none

def contentNonce (chunkIndex : Nat) : Option Bytes := (u64le chunkIndex).map (· ++ [0, 0, 0, 1])
def thumbnailNonce (sizePx : Nat) : Option Bytes := (u64le sizePx).map (· ++ [0, 0, 0, 2])
def contentAad (chunkIndex : Nat) : Option Bytes :=
  (u64le chunkIndex).map fun n => aadDomain ++ [0] ++ n
def thumbnailAad (sizePx : Nat) : Option Bytes := (u64le sizePx).map fun n => aadDomain ++ [1] ++ n

def chunkCount (sizeBytes chunkBytes : Nat) : Nat :=
  if sizeBytes = 0 then 0 else sizeBytes ⌈/⌉ chunkBytes

def ciphertextSize (sizeBytes chunkBytes : Nat) : Nat :=
  sizeBytes + chunkCount sizeBytes chunkBytes * tagBytes

/-- Where in the ciphertext the chunks from one to another are. -/
def ciphertextRangeForChunks (firstChunk lastChunk chunkBytes : Nat) : Nat × Nat :=
  let whole := chunkBytes + tagBytes
  (firstChunk * whole, (lastChunk + 1) * whole)

variable (gcm : AesGcm Key) (key : Key)

/-- Ciphertext and tag are opened together, or an error is thrown. -/
def openSealed (nonce aad : Option Bytes) (sealed : Bytes) : Option Bytes := do
  if sealed.length < tagBytes then none
  let body := sealed.take (sealed.length - tagBytes)
  let tag := sealed.drop (sealed.length - tagBytes)
  gcm.decrypt key (← nonce) (← aad) body tag

def decryptChunk (chunkIndex : Nat) (sealed : Bytes) : Option Bytes :=
  openSealed gcm key (contentNonce chunkIndex) (contentAad chunkIndex) sealed

def decryptThumbnail (sizePx : Nat) (sealed : Bytes) : Option Bytes :=
  openSealed gcm key (thumbnailNonce sizePx) (thumbnailAad sizePx) sealed

end Downloader

/-! ## One layout -/

variable {gcm : AesGcm Key} {key : Key} {c i n : Nat} {file : Bytes}

theorem uploader_chunkCount : Uploader.chunkCount c n = Downloader.chunkCount n c := rfl

theorem chunkCount_eq : Downloader.chunkCount n c = n ⌈/⌉ c := by
  rw [Downloader.chunkCount]
  split
  · next h => rw [h, zero_ceilDiv]
  · rfl

theorem lt_chunkCount (hc : 0 < c) : i < Downloader.chunkCount n c ↔ i * c < n := by
  rw [chunkCount_eq, ← not_le, ceilDiv_le_iff_le_mul hc, not_le, Nat.mul_comm]

/-- The ciphertext of a file: its sealed chunks, one after another. -/
def content (gcm : AesGcm Key) (key : Key) (chunkBytes : Nat) (file : Bytes) : Bytes :=
  perChunk chunkBytes (Uploader.sealChunk gcm key) 0 file

def chunk (chunkBytes : Nat) (file : Bytes) (i : Nat) : Bytes :=
  slice file (i * chunkBytes) ((i + 1) * chunkBytes)

namespace Uploader

theorem sealFrom_eq (hc : 0 < c) (plain : Bytes) (off i : Nat) :
    sealFrom c gcm key plain off i = perChunk c (sealChunk gcm key) i (plain.drop off) := by
  fun_induction sealFrom c gcm key plain off i with
  | case1 off i hoff ih =>
    have hne : plain.drop off ≠ [] := ne_nil_of_length_pos (by rw [length_drop]; omega)
    rw [perChunk_of_ne_nil hc hne, ih, slice_min_length, slice, Nat.add_sub_cancel_left,
      drop_drop]
  | case2 off i hoff => rw [drop_of_length_le (by omega), perChunk_nil]

theorem sealSpan_eq (hc : 0 < c) (plain : Bytes) :
    sealSpan c gcm key i plain = perChunk c (sealChunk gcm key) i plain :=
  sealFrom_eq hc plain 0 i

/-- The server appends a request's body, if it is for the end of what there is. -/
def Patch.appendTo (stored : Bytes) (p : Patch) : Option Bytes :=
  if p.uploadOffset = stored.length then some (stored ++ p.body) else none

theorem foldlM_patches (hc : 0 < c)
    (hlen : ∀ i plain, (sealChunk gcm key i plain).length = plain.length + tagBytes)
    {reads : List Nat} (hreads : ∀ read ∈ reads, c ∣ read) {offset : Nat}
    (hoffset : c ∣ offset ∨ offset = file.length) (hle : offset ≤ file.length)
    (hall : file.length ≤ offset + reads.sum) :
    (patches c gcm key file reads offset).foldlM Patch.appendTo
      (content gcm key c (file.take offset)) = some (content gcm key c file) := by
  induction reads generalizing offset with
  | nil =>
    rw [patches, take_of_length_le (by simpa using hall)]
    rfl
  | cons read reads ih =>
    obtain ⟨hread, hreads⟩ := forall_mem_cons.1 hreads
    rw [sum_cons] at hall
    rw [patches]
    split
    · next hlt =>
      -- What is read starts where a chunk does, and so does what is read next, if anything.
      obtain ⟨n, rfl⟩ : c ∣ offset := hoffset.resolve_right (by omega)
      set stop := min (c * n + read) file.length with hstop
      have htake : (file.take (c * n)).length = n * c := by
        rw [length_take, Nat.min_eq_left hle, Nat.mul_comm]
      have hat : (content gcm key c (file.take (c * n))).length = ciphertextOffset c n :=
        length_perChunk_of_eq hc hlen htake
      have hcut : file.take stop = file.take (c * n) ++ slice file (c * n) stop := by
        rw [slice_eq_drop_take]
        conv_lhs => rw [← take_append_drop (c * n) (file.take stop), take_take,
          Nat.min_eq_left (by omega)]
      have happend : content gcm key c (file.take (c * n)) ++
          sealSpan c gcm key n (slice file (c * n) stop) = content gcm key c (file.take stop) := by
        rw [sealSpan_eq hc, hcut, content, content, perChunk_append hc htake, Nat.zero_add]
      rw [Nat.mul_div_cancel_left n hc, foldlM_cons, Patch.appendTo, if_pos hat.symm, happend]
      refine ih hreads ?_ (by omega) (by omega)
      rcases Nat.le_total (c * n + read) file.length with hfits | hends
      · rw [hstop, Nat.min_eq_left hfits]
        exact .inl (Nat.dvd_add (Nat.dvd_mul_right c n) hread)
      · exact .inr (Nat.min_eq_right hends)
    · next hend =>
      rw [take_of_length_le (by omega)]
      rfl

theorem dvd_uploadChunkBytes (limit : Nat) :
    defaultChunkBytes ∣ uploadChunkBytes limit ∧ 0 < uploadChunkBytes limit := by
  have hmax : defaultChunkBytes ∣ maxUploadChunkBytes := ⟨128, rfl⟩
  rw [uploadChunkBytes]
  split
  · exact ⟨hmax, by decide⟩
  · have hwhole (n : Nat) : defaultChunkBytes ∣
        min maxUploadChunkBytes (max defaultChunkBytes (n * defaultChunkBytes)) := by
      rcases min_choice maxUploadChunkBytes (max defaultChunkBytes (n * defaultChunkBytes))
        with h | h <;> rw [h]
      · exact hmax
      · rcases max_choice defaultChunkBytes (n * defaultChunkBytes) with h | h <;> rw [h]
        exact Nat.dvd_mul_left _ n
    exact ⟨hwhole _, lt_min (by decide) (lt_max_of_lt_left (by decide))⟩

/-- However a file is read, in whole chunks, what is sent becomes its ciphertext. -/
theorem uploaded_content (hc : 0 < c)
    (hlen : ∀ i plain, (sealChunk gcm key i plain).length = plain.length + tagBytes)
    {reads : List Nat} (hreads : ∀ read ∈ reads, c ∣ read) (hall : file.length ≤ reads.sum) :
    (patches c gcm key file reads 0).foldlM Patch.appendTo [] = some (content gcm key c file) := by
  have h := foldlM_patches hc hlen hreads (.inl (Nat.dvd_zero c)) (Nat.zero_le file.length)
    (by rwa [Nat.zero_add])
  rwa [take_zero, content, perChunk_nil] at h

theorem uploaded_under_limits
    (hlen : ∀ i plain, (sealChunk gcm key i plain).length = plain.length + tagBytes)
    {limits : List Nat} (hall : file.length ≤ (limits.map uploadChunkBytes).sum) :
    (patches defaultChunkBytes gcm key file (limits.map uploadChunkBytes) 0).foldlM
      Patch.appendTo [] = some (content gcm key defaultChunkBytes file) := by
  refine uploaded_content (by decide) hlen (fun read hread => ?_) hall
  obtain ⟨limit, -, rfl⟩ := mem_map.1 hread
  exact (dvd_uploadChunkBytes limit).1

theorem uploaded_under_limits_three :
    let gcm : AesGcm Unit :=
      ⟨fun _ _ _ plain => plain ++ List.replicate tagBytes 0, fun _ _ _ _ _ => none⟩
    (patches defaultChunkBytes gcm () [10, 20, 30] ([1].map uploadChunkBytes) 0).foldlM
      Patch.appendTo [] = some (content gcm () defaultChunkBytes [10, 20, 30]) :=
  uploaded_under_limits (fun i plain => by simp [sealChunk]) (by decide)

end Uploader

/-! ## An ideal cipher -/

/-- The cipher opens exactly what was sealed under the key, by nonce, associated data and plaintext.
    -/
structure AesGcm.Ideal (gcm : AesGcm Key) (key : Key) (sealings : List (Bytes × Bytes × Bytes)) :
    Prop where
  length_encrypt : ∀ iv aad plain, (gcm.encrypt key iv aad plain).length = plain.length + tagBytes
  opens : ∀ nonce aad body tag plain, tag.length = tagBytes →
    (gcm.decrypt key nonce aad body tag = some plain ↔
      (nonce, aad, plain) ∈ sealings ∧ gcm.encrypt key nonce aad plain = body ++ tag)

/-- What an attachment's key seals: a file, and JPEGs by their long edge. Lengths are safe integers.
    -/
structure Upload where
  file : Bytes
  thumbnails : List (Nat × Bytes)
  file_safe : file.length ≤ maxSafeInteger
  thumbnails_safe : ∀ thumb ∈ thumbnails, thumb.1 ≤ maxSafeInteger

/-- All that an upload seals. -/
def Upload.sealings (up : Upload) (chunkBytes : Nat) : List (Bytes × Bytes × Bytes) :=
  ((List.range (Uploader.chunkCount chunkBytes up.file.length)).map fun i =>
    (Uploader.iv i 1, Uploader.additionalData 0 i, chunk chunkBytes up.file i)) ++
  up.thumbnails.map fun thumb =>
    (Uploader.iv thumb.1 2, Uploader.additionalData 1 thumb.1, thumb.2)

section Opening

open Uploader Downloader

variable {up : Upload} {sealings : List (Bytes × Bytes × Bytes)} {plain bytes : Bytes} {px : Nat}

theorem iv_injective {m n : Nat} {k l : UInt8} (h : iv m k = iv n l) (hm : m < 2 ^ 64)
    (hn : n < 2 ^ 64) : m = n ∧ k = l := by
  obtain ⟨hnumber, hkind⟩ := append_inj h (by rw [Uploader.u64le, Uploader.u64le,
    length_leBytes, length_leBytes])
  refine ⟨?_, by simpa using hkind⟩
  rw [← ofLeBytes_leBytes (k := 8) hm, ← ofLeBytes_leBytes (k := 8) hn]
  exact congrArg ofLeBytes hnumber

theorem contentNonce_eq (h : i < 2 ^ 64) : contentNonce i = some (iv i 1) := by
  rw [contentNonce, Downloader.u64le, if_pos h]
  rfl

theorem contentAad_eq (h : i < 2 ^ 64) : contentAad i = some (additionalData 0 i) := by
  rw [contentAad, Downloader.u64le, if_pos h]
  rfl

theorem thumbnailNonce_eq (h : px < 2 ^ 64) : thumbnailNonce px = some (iv px 2) := by
  rw [thumbnailNonce, Downloader.u64le, if_pos h]
  rfl

theorem thumbnailAad_eq (h : px < 2 ^ 64) : thumbnailAad px = some (additionalData 1 px) := by
  rw [thumbnailAad, Downloader.u64le, if_pos h]
  rfl

theorem openSealed_iff {nonce aad : Bytes} (h : gcm.Ideal key sealings) :
    openSealed gcm key (some nonce) (some aad) bytes = some plain ↔
      (nonce, aad, plain) ∈ sealings ∧ gcm.encrypt key nonce aad plain = bytes := by
  rw [openSealed]
  by_cases hshort : bytes.length < tagBytes
  · -- Too short for a tag.
    simp only [hshort, if_true]
    refine ⟨nofun, fun ⟨_, hsealed⟩ => ?_⟩
    have hlen := h.length_encrypt nonce aad plain
    rw [hsealed] at hlen
    omega
  · have htag : (bytes.drop (bytes.length - tagBytes)).length = tagBytes := by
      rw [length_drop]
      omega
    have hopens := h.opens nonce aad (bytes.take (bytes.length - tagBytes)) _ plain htag
    rw [take_append_drop] at hopens
    simpa [hshort] using hopens

theorem small_of_lt_chunkCount (hc : 0 < c) (hi : i < Downloader.chunkCount up.file.length c) :
    i < 2 ^ 64 := by
  have hsafe := up.file_safe
  have hle : i ≤ i * c := Nat.le_mul_of_pos_right i hc
  rw [lt_chunkCount hc] at hi
  rw [maxSafeInteger] at hsafe
  omega

theorem mem_sealings_chunk (hc : 0 < c) (hi : i < 2 ^ 64) :
    (iv i 1, additionalData 0 i, plain) ∈ up.sealings c ↔
      i < Downloader.chunkCount up.file.length c ∧ plain = chunk c up.file i := by
  constructor
  · intro hmem
    rcases mem_append.1 hmem with hmem | hmem
    · obtain ⟨j, hj, heq⟩ := mem_map.1 hmem
      rw [mem_range, uploader_chunkCount] at hj
      rw [Prod.mk.injEq, Prod.mk.injEq] at heq
      obtain ⟨rfl, -⟩ := iv_injective heq.1 (small_of_lt_chunkCount hc hj) hi
      exact ⟨hj, heq.2.2.symm⟩
    · -- The nonces of thumbnails end differently.
      obtain ⟨thumb, hthumb, heq⟩ := mem_map.1 hmem
      have hsafe := up.thumbnails_safe thumb hthumb
      rw [maxSafeInteger] at hsafe
      exact absurd (iv_injective (congrArg Prod.fst heq) (by omega) hi).2 (by decide)
  · rintro ⟨hcount, rfl⟩
    exact mem_append_left _ (mem_map.2 ⟨i, mem_range.2 hcount, rfl⟩)

theorem mem_sealings_thumbnail (hc : 0 < c) (hpx : px < 2 ^ 64) :
    (iv px 2, additionalData 1 px, plain) ∈ up.sealings c ↔ (px, plain) ∈ up.thumbnails := by
  constructor
  · intro hmem
    rcases mem_append.1 hmem with hmem | hmem
    · obtain ⟨j, hj, heq⟩ := mem_map.1 hmem
      rw [mem_range, uploader_chunkCount] at hj
      exact absurd (iv_injective (congrArg Prod.fst heq) (small_of_lt_chunkCount hc hj) hpx).2
        (by decide)
    · obtain ⟨thumb, hthumb, heq⟩ := mem_map.1 hmem
      have hsafe := up.thumbnails_safe thumb hthumb
      rw [maxSafeInteger] at hsafe
      rw [Prod.mk.injEq, Prod.mk.injEq] at heq
      obtain ⟨rfl, -⟩ := iv_injective heq.1 (by omega) hpx
      rwa [← heq.2.2]
  · exact fun hmem => mem_append_right _ (mem_map.2 ⟨_, hmem, rfl⟩)

theorem decryptChunk_iff (hc : 0 < c) (h : gcm.Ideal key (up.sealings c)) :
    decryptChunk gcm key i bytes = some plain ↔ i < Downloader.chunkCount up.file.length c ∧
      plain = chunk c up.file i ∧ bytes = sealChunk gcm key i plain := by
  by_cases hi : i < 2 ^ 64
  · rw [decryptChunk, contentNonce_eq hi, contentAad_eq hi, openSealed_iff h,
      mem_sealings_chunk hc hi, and_assoc, eq_comm (b := bytes)]
    rfl
  · -- A number that does not fit is an error.
    rw [decryptChunk, contentNonce, Downloader.u64le, if_neg hi]
    refine ⟨fun hopen => ?_, fun ⟨hcount, _⟩ => absurd (small_of_lt_chunkCount hc hcount) hi⟩
    rw [openSealed] at hopen
    split at hopen <;> cases hopen

theorem decryptThumbnail_iff (hc : 0 < c) (h : gcm.Ideal key (up.sealings c)) :
    decryptThumbnail gcm key px bytes = some plain ↔
      (px, plain) ∈ up.thumbnails ∧ bytes = sealThumbnail gcm key px plain := by
  by_cases hpx : px < 2 ^ 64
  · rw [decryptThumbnail, thumbnailNonce_eq hpx, thumbnailAad_eq hpx, openSealed_iff h,
      mem_sealings_thumbnail hc hpx, eq_comm (b := bytes)]
    rfl
  · rw [decryptThumbnail, thumbnailNonce, Downloader.u64le, if_neg hpx]
    refine ⟨fun hopen => ?_, fun ⟨hmem, _⟩ => ?_⟩
    · rw [openSealed] at hopen
      split at hopen <;> cases hopen
    · have hsafe := up.thumbnails_safe _ hmem
      rw [maxSafeInteger] at hsafe
      omega

theorem slice_content (hc : 0 < c)
    (hlen : ∀ i plain, (sealChunk gcm key i plain).length = plain.length + tagBytes)
    (hi : i < Downloader.chunkCount file.length c) :
    slice (content gcm key c file) (ciphertextOffset c i) (ciphertextOffset c (i + 1)) =
      sealChunk gcm key i (chunk c file i) := by
  have hpiece := piece_perChunk (i := 0) hc hlen ((lt_chunkCount hc).1 hi)
  rwa [Nat.zero_add] at hpiece

theorem length_content (hc : 0 < c)
    (hlen : ∀ i plain, (sealChunk gcm key i plain).length = plain.length + tagBytes) :
    (content gcm key c file).length = Downloader.ciphertextSize file.length c := by
  rw [content, length_perChunk hc hlen, Downloader.ciphertextSize, chunkCount_eq]

end Opening

end Decibell.Attachments
