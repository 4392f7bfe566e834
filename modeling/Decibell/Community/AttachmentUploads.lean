import Decibell.Community.RequestBoundaries
import Mathlib.Logic.Function.Basic

/-!
# Uploads of one attachment over many connections

Requests for one attachment come over any number of connections, and a patch goes on as long as its
body streams, through a file of its own. `Upload.step` is one handler, or one completed read of a
body.

* `upload_intact`: what was acknowledged stays, as long as no patch or abort is let through while a
  patch goes on;
* `rival_patch`: two patches of one range, of which one gets into the finished file.
-/

namespace Decibell.Community

open Lib List

/-- Bytes written at a position of a file; a gap before them is zeros. -/
def writeAt (file : HttpBytes) (pos : Nat) (bytes : HttpBytes) : HttpBytes :=
  if bytes = [] then file
  else file.take pos ++ replicate (pos - file.length) 0 ++ bytes ++ file.drop (pos + bytes.length)

/-- A patch that goes on, with its stream. -/
structure PatchFile where
  /-- Where in the file the stream is. -/
  pos : Nat
  /-- What the stream has taken and the file has not. -/
  buffered : HttpBytes := []
  remain : Nat
  final : Nat

/-- How much of its bytes a stream gets into the file, and whether it says that it worked. -/
structure Flush where
  flushed : Nat
  ok : Bool

/-- An `Upload-Offset` that was answered, and for the record the file then. -/
structure OffsetAnswer where
  status : Nat
  offset : Nat
  stored : HttpBytes

/-- An attachment from its init on. The file is the partial one, once renamed the attachment's. -/
structure Upload where
  row : Option AttachmentRow
  sizeBytes : Nat := 0
  file : Option HttpBytes
  /-- By connection. -/
  patches : Nat → Option PatchFile := fun _ => none
  answers : List OffsetAnswer := []
  /-- For the record: what was written while the attachment was ready. -/
  lateWrites : List HttpBytes := []

namespace Upload

variable (s : Upload)

def bytes : HttpBytes := s.file.getD []

def status : Option String := s.row.map (·.uploadStatus)

/-- What requests find. A file's size may not be told. -/
def env (e : Env) : Env :=
  { e with
    getAttachment := fun _ => s.row
    fileExists := fun _ => s.file.isSome
    fileSize := fun path => (e.fileSize path).map fun _ => (s.bytes.length : Int) }

/-- A stream writes into the file, if that is still there. -/
def write (pos : Nat) (bytes : HttpBytes) : Upload :=
  { s with
    file := s.file.map (writeAt · pos bytes)
    lateWrites := if bytes ≠ [] ∧ s.status = some "ready" then bytes :: s.lateWrites
      else s.lateWrites }

def answer (status offset : Nat) : Upload :=
  { s with answers := ⟨status, offset, s.bytes⟩ :: s.answers }

def setPatch (c : Nat) (f : Option PatchFile) : Upload :=
  { s with patches := Function.update s.patches c f }

/-- `fflush` and `fclose`, and the answer. -/
def finishPatch (c : Nat) (f : PatchFile) (close : Flush) : Upload :=
  if close.ok then ((s.write f.pos f.buffered).setPatch c none).answer 204 f.final
  else (s.write f.pos (f.buffered.take close.flushed)).setPatch c none

/-- `fwrite`, and what follows. -/
def writePatch (c : Nat) (f : PatchFile) (body : HttpBytes) (io close : Flush) : Upload :=
  let out := f.buffered ++ body
  let s := s.write f.pos (out.take io.flushed)
  if !io.ok then s.setPatch c none
  else
    let f := { f with
      pos := f.pos + (out.take io.flushed).length
      buffered := out.drop io.flushed
      remain := f.remain - body.length }
    if f.remain = 0 then s.finishPatch c f close else s.setPatch c (some f)

/-- `buffered` came along with the head. -/
def handlePatch (c : Nat) (e : Env) (uid : Int) (req : HttpRequest) (id : Int)
    (buffered : HttpBytes) (io close : Flush) : Upload :=
  match patchVerdict (s.env e) uid req id with
  | .error _ => s
  | .ok _ =>
    let offset := ((stoll (req.header "upload-offset")).getD 0).toNat
    let remain := req.contentLength.toNat
    let f := { pos := offset, remain, final := offset + remain }
    -- a file that is not there is created
    let s := { s with file := some s.bytes }
    if buffered = [] then
      if remain = 0 then s.finishPatch c f close else s.setPatch c (some f)
    else s.writePatch c f (buffered.take remain) io close

def handleHeadStatus (e : Env) (uid id : Int) : Upload :=
  match headVerdict (s.env e) uid id with
  | .error _ => s
  | .ok _ => s.answer 200 (if s.status = some "uploading" then s.bytes.length else s.sizeBytes)

def handleComplete (e : Env) (uid id : Int) : Upload :=
  match completeVerdict (s.env e) uid id with
  | .error _ => s
  | .ok _ =>
    { s with
      row := s.row.map ({ · with uploadStatus := "ready" })
      sizeBytes := s.bytes.length }

def handleDelete (e : Env) (uid id : Int) : Upload :=
  match deleteVerdict (s.env e) uid id with
  | .error _ => s
  | .ok _ => { s with row := none, file := none }

inductive Label
  | patch (c : Nat) (e : Env) (uid : Int) (req : HttpRequest) (id : Int) (buffered : HttpBytes)
      (io close : Flush)
  /-- A read of a patch's body completes. -/
  | read (c : Nat) (body : HttpBytes) (io close : Flush)
  /-- A connection in a patch dies; its stream is closed. -/
  | die (c flushed : Nat)
  | head (e : Env) (uid id : Int)
  | complete (e : Env) (uid id : Int)
  | delete (e : Env) (uid id : Int)

def step : Label → Option Upload
  | .patch c e uid req id buffered io close =>
    match s.patches c with
    | none => some (s.handlePatch c e uid req id buffered io close)
    | some _ => none
  | .read c body io close =>
    match s.patches c with
    | some f =>
      if body.length = min f.remain patchBufSize then some (s.writePatch c f body io close) else none
    | none => none
  | .die c flushed =>
    (s.patches c).map fun f => (s.write f.pos (f.buffered.take flushed)).setPatch c none
  | .head e uid id => some (s.handleHeadStatus e uid id)
  | .complete e uid id => some (s.handleComplete e uid id)
  | .delete e uid id => some (s.handleDelete e uid id)

/-- After an init; its empty file may be missing. -/
def system : System Upload Label where
  init s := ∃ row file, row.uploadStatus = "uploading" ∧ 0 < row.expectedSize ∧ file.getD [] = [] ∧
    s = { row := some row, file }
  step s l s' := s.step l = some s'

/-- No patch or abort is let through while a patch goes on. -/
def Undisturbed (s : Upload) : Label → Prop
  | .patch _ e uid req id .. => (patchVerdict (s.env e) uid req id).isOk → ∀ c, s.patches c = none
  | .delete e uid id => (deleteVerdict (s.env e) uid id).isOk → ∀ c, s.patches c = none
  | _ => True

/-- Offsets that were answered are what was stored, which stays until an abort; no file gets longer
    than was declared, and a ready one has that length and is not written. -/
structure Intact : Prop where
  told : ∀ a ∈ s.answers, a.offset = a.stored.length
  kept : ∀ a ∈ s.answers, s.row ≠ none → a.stored <+: s.bytes
  fits : ∀ row, s.row = some row → s.bytes.length ≤ row.expectedSize
  whole : ∀ row, s.row = some row → row.uploadStatus = "ready" → s.bytes.length = row.expectedSize
  unwritten : s.lateWrites = []

/-! ## What the checks say -/

theorem require_bind {β : Type} {status : Nat} {p : Bool} {f : Unit → Except Nat β} {b : β} :
    (require status p >>= f) = .ok b ↔ p = true ∧ f () = .ok b := by
  cases p
  · constructor
    · rintro ⟨⟩
    · rintro ⟨⟨⟩, -⟩
  · exact (and_iff_right rfl).symm

theorem found_bind {α β : Type} {status : Nat} {o : Option α} {f : α → Except Nat β} {b : β} :
    (found status o >>= f) = .ok b ↔ ∃ a, o = some a ∧ f a = .ok b := by
  constructor
  · intro h
    cases o with
    | none => cases h
    | some a => exact ⟨a, rfl, h⟩
  · rintro ⟨a, rfl, h⟩
    exact h

theorem uploadChecks_bind {β : Type} {e : Env} {uid id : Int} {status : String}
    {f : AttachmentRow → Except Nat β} {b : β}
    (h : (uploadChecks (s.env e) uid id status >>= f) = .ok b) :
    ∃ row, s.row = some row ∧ row.uploadStatus = status ∧ f row = .ok b := by
  simp only [uploadChecks, bind_assoc, pure_bind, require_bind, found_bind, decide_eq_true_eq] at h
  obtain ⟨row, hrow, hstatus, -, -, hf⟩ := h
  exact ⟨row, hrow, hstatus, hf⟩

theorem of_patchVerdict {e : Env} {uid id : Int} {req : HttpRequest} {u : Unit}
    (h : patchVerdict (s.env e) uid req id = .ok u) : ∃ row, s.row = some row ∧
      row.uploadStatus = "uploading" ∧
      ((stoll (req.header "upload-offset")).getD 0).toNat = s.bytes.length ∧
      (row.expectedSize ≤ 0 ∨
        (s.bytes.length + req.contentLength.toNat : Nat) ≤ row.expectedSize) := by
  rw [patchVerdict] at h
  obtain ⟨row, hrow, hstatus, h⟩ := uploadChecks_bind s h
  obtain ⟨offset, hoffset, h⟩ := found_bind.1 h
  obtain ⟨h0, h⟩ := require_bind.1 h
  extract_lets path next at h
  obtain ⟨size, hsize, h⟩ : ∃ size : Int, size = s.bytes.length ∧ next size = .ok u := by
    split at h
    · obtain ⟨size, hsize, h⟩ := found_bind.1 h
      obtain ⟨-, -, rfl⟩ := Option.map_eq_some_iff.1 hsize
      exact ⟨_, rfl, h⟩
    · next hnone =>
      obtain ⟨size, hsize, h⟩ := found_bind.1 h
      have hfile : s.file = none := by simpa [env] using hnone
      split at hsize
      · cases hsize
        exact ⟨_, by rw [bytes, hfile]; rfl, h⟩
      · cases hsize
  obtain ⟨hmatch, h⟩ := require_bind.1 h
  obtain ⟨hlength, h⟩ := require_bind.1 h
  obtain ⟨hroom, -⟩ := require_bind.1 h
  rw [decide_eq_true_eq] at h0 hmatch hlength
  rw [Bool.or_eq_true, decide_eq_true_eq, decide_eq_true_eq] at hroom
  refine ⟨row, hrow, hstatus, ?_, hroom.imp_right ?_⟩
  · rw [hoffset, Option.getD_some]
    omega
  · omega

theorem of_completeVerdict {e : Env} {uid id : Int} {u : Unit}
    (h : completeVerdict (s.env e) uid id = .ok u) : ∃ row, s.row = some row ∧
      row.uploadStatus = "uploading" ∧
      (row.expectedSize ≤ 0 ∨ s.bytes.length = row.expectedSize) := by
  obtain ⟨row, hrow, hstatus, h⟩ := uploadChecks_bind s h
  obtain ⟨-, h⟩ := require_bind.1 h
  obtain ⟨actual, hactual, h⟩ := found_bind.1 h
  obtain ⟨-, -, rfl⟩ := Option.map_eq_some_iff.1 hactual
  obtain ⟨hsize, -⟩ := require_bind.1 h
  rw [Bool.or_eq_true, decide_eq_true_eq, decide_eq_true_eq] at hsize
  exact ⟨row, hrow, hstatus, hsize⟩

theorem of_headVerdict {e : Env} {uid id : Int} {u : Unit}
    (h : headVerdict (s.env e) uid id = .ok u) : ∃ row, s.row = some row := by
  obtain ⟨row, hrow, -⟩ := found_bind.1 h
  exact ⟨row, hrow⟩

/-! ## One patch at a time -/

theorem writeAt_end (file bytes : HttpBytes) : writeAt file file.length bytes = file ++ bytes := by
  rw [writeAt]
  split
  · next h => rw [h, append_nil]
  · rw [take_length, Nat.sub_self, replicate_zero, append_nil,
      drop_eq_nil_of_le (Nat.le_add_right ..), append_nil]

/-- What every step keeps, but for patches. -/
structure Kept : Prop extends Intact s where
  declared : ∀ row, s.row = some row → 0 < row.expectedSize ∧
    (row.uploadStatus = "uploading" ∨ row.uploadStatus = "ready" ∧ s.sizeBytes = s.bytes.length)

/-- A patch appends to the file of an upload, and has room. -/
structure Streams (f : PatchFile) : Prop where
  uploading : ∃ row, s.row = some row ∧ row.uploadStatus = "uploading" ∧
    f.final ≤ row.expectedSize
  file : s.file = some s.bytes
  pos : f.pos = s.bytes.length
  count : f.pos + f.buffered.length + f.remain = f.final

/-- At most one patch goes on. -/
structure Inv : Prop extends Kept s where
  alone : ∀ c f, s.patches c = some f →
    s.Streams f ∧ 0 < f.remain ∧ ∀ c', c' ≠ c → s.patches c' = none

/-- The file gets longer. -/
def append (b : HttpBytes) : Upload := { s with file := some (s.bytes ++ b) }

variable {s} {c : Nat} {f : PatchFile}

theorem patches_setPatch (o : Option PatchFile) : (s.setPatch c o).patches c = o :=
  Function.update_self ..

theorem patches_setPatch_of_ne {c' : Nat} (h : c' ≠ c) (o : Option PatchFile) :
    (s.setPatch c o).patches c' = s.patches c' :=
  Function.update_of_ne h ..

theorem Streams.write (hf : s.Streams f) (b : HttpBytes) : s.write f.pos b = s.append b := by
  obtain ⟨row, hrow, hstatus, -⟩ := hf.uploading
  have hready : ¬(b ≠ [] ∧ s.status = some "ready") := by
    rintro ⟨-, h⟩
    rw [status, hrow, Option.map_some, hstatus] at h
    exact absurd h (by decide)
  rw [Upload.write, if_neg hready, hf.file, hf.pos, Option.map_some, writeAt_end, append]

theorem Kept.setPatch (h : s.Kept) (o : Option PatchFile) : (s.setPatch c o).Kept :=
  ⟨⟨h.told, h.kept, h.fits, h.whole, h.unwritten⟩, h.declared⟩

theorem Kept.answer (h : s.Kept) {status offset : Nat} (hoffset : offset = s.bytes.length) :
    (s.answer status offset).Kept where
  told := forall_mem_cons.2 ⟨hoffset, h.told⟩
  kept := forall_mem_cons.2 ⟨fun _ => prefix_refl _, h.kept⟩
  fits := h.fits
  whole := h.whole
  unwritten := h.unwritten
  declared := h.declared

theorem Kept.append (h : s.Kept) (hf : s.Streams f) {b : HttpBytes}
    (hb : b.length ≤ f.buffered.length + f.remain) :
    (s.append b).Kept := by
  obtain ⟨row, hrow, hstatus, hroom⟩ := hf.uploading
  have hlength : (s.bytes ++ b).length ≤ f.final := by
    rw [length_append, ← hf.count, hf.pos]
    omega
  have hready {P : Prop} (row' : AttachmentRow) (hrow' : s.row = some row')
      (hready : row'.uploadStatus = "ready") : P := by
    cases hrow.symm.trans hrow'
    exact absurd (hstatus.symm.trans hready) (by decide)
  exact {
    told := h.told
    kept := fun a ha hr => (h.kept a ha hr).trans (prefix_append _ _)
    fits := fun row' hrow' => by
      cases hrow.symm.trans hrow'
      exact Int.le_trans (Int.ofNat_le.2 hlength) hroom
    whole := fun row' hrow' hr => hready row' hrow' hr
    unwritten := h.unwritten
    declared := fun row' hrow' => ⟨(h.declared row' hrow').1, .inl <| by
      cases hrow.symm.trans hrow'
      exact hstatus⟩ }

theorem Inv.answer (h : s.Inv) {status offset : Nat} (hoffset : offset = s.bytes.length) :
    (s.answer status offset).Inv where
  toKept := h.toKept.answer hoffset
  alone c f hf := by
    obtain ⟨hstream, hrest⟩ := h.alone c f hf
    exact ⟨⟨hstream.uploading, hstream.file, hstream.pos, hstream.count⟩, hrest⟩

theorem Kept.close (h : s.Kept) (hothers : ∀ c', c' ≠ c → s.patches c' = none) :
    (s.setPatch c none).Inv where
  toKept := h.setPatch none
  alone c' f hf := by
    rcases eq_or_ne c' c with rfl | hne
    · cases (patches_setPatch none).symm.trans hf
    · rw [patches_setPatch_of_ne hne, hothers c' hne] at hf
      cases hf

theorem Kept.goOn (h : s.Kept) (hf : s.Streams f)
    (hothers : ∀ c', c' ≠ c → s.patches c' = none) (hremain : 0 < f.remain) :
    (s.setPatch c (some f)).Inv where
  toKept := h.setPatch (some f)
  alone c' f' hf' := by
    rcases eq_or_ne c' c with rfl | hne
    · rw [patches_setPatch] at hf'
      cases hf'
      refine ⟨⟨hf.uploading, hf.file, hf.pos, hf.count⟩, hremain, fun c hc => ?_⟩
      rw [patches_setPatch_of_ne hc, hothers c hc]
    · rw [patches_setPatch_of_ne hne, hothers c' hne] at hf'
      cases hf'

theorem Kept.finishPatch (h : s.Kept) (hf : s.Streams f)
    (hothers : ∀ c', c' ≠ c → s.patches c' = none) (hremain : f.remain = 0) (close : Flush) :
    (s.finishPatch c f close).Inv := by
  rw [Upload.finishPatch, hf.write, hf.write]
  split
  · have hall := h.append hf (Nat.le_add_right f.buffered.length f.remain)
    have hclosed : ((s.append f.buffered).setPatch c none).Inv := hall.close hothers
    refine hclosed.answer ?_
    change f.final = (s.bytes ++ f.buffered).length
    rw [length_append, ← hf.count, hf.pos, hremain, Nat.add_zero]
  · have hsome : (f.buffered.take close.flushed).length ≤ f.buffered.length + f.remain :=
      Nat.le_trans (length_take_le' ..) (Nat.le_add_right ..)
    exact (h.append hf hsome).close hothers

theorem Kept.writePatch (h : s.Kept) (hf : s.Streams f)
    (hothers : ∀ c', c' ≠ c → s.patches c' = none) {body : HttpBytes}
    (hbody : body.length ≤ f.remain) (io close : Flush) :
    (s.writePatch c f body io close).Inv := by
  obtain ⟨out, hout⟩ : ∃ out, out = f.buffered ++ body := ⟨_, rfl⟩
  have hlength : out.length = f.buffered.length + body.length := by rw [hout, length_append]
  have hfits : (out.take io.flushed).length ≤ f.buffered.length + f.remain := by
    rw [length_take]
    omega
  have hk := h.append hf hfits
  rw [Upload.writePatch, ← hout, hf.write]
  split
  · exact hk.close hothers
  · have hf' : (s.append (out.take io.flushed)).Streams { f with
        pos := f.pos + (out.take io.flushed).length
        buffered := out.drop io.flushed
        remain := f.remain - body.length } := by
      refine ⟨hf.uploading, rfl, ?_, ?_⟩
      · change _ = (s.bytes ++ _).length
        rw [length_append, hf.pos]
      · have hcut : (out.take io.flushed).length + (out.drop io.flushed).length = out.length := by
          rw [← length_append, take_append_drop]
        have hcount := hf.count
        change f.pos + (out.take io.flushed).length + (out.drop io.flushed).length +
          (f.remain - body.length) = f.final
        omega
    dsimp only
    split
    · next hdone => exact hk.finishPatch hf' hothers hdone close
    · next hmore => exact hk.goOn hf' hothers (Nat.pos_of_ne_zero hmore)

theorem Inv.init (h : system.init s) : s.Inv := by
  obtain ⟨row, file, hstatus, hsize, hempty, rfl⟩ := h
  have hzero : Upload.bytes { row := some row, file } = [] := hempty
  exact {
    told := by rintro _ ⟨⟩
    kept := by rintro _ ⟨⟩
    fits := by
      rintro _ ⟨⟩
      rw [hzero]
      exact Int.le_of_lt hsize
    whole := by
      rintro _ ⟨⟩ hready
      exact absurd (hstatus.symm.trans hready) (by decide)
    unwritten := rfl
    declared := by
      rintro _ ⟨⟩
      exact ⟨hsize, .inl hstatus⟩
    alone := by rintro _ _ ⟨⟩ }

theorem Inv.handlePatch (h : s.Inv) {e : Env} {uid id : Int} {req : HttpRequest}
    {buffered : HttpBytes} {io close : Flush}
    (hquiet : (patchVerdict (s.env e) uid req id).isOk → ∀ c, s.patches c = none) :
    (s.handlePatch c e uid req id buffered io close).Inv := by
  rw [Upload.handlePatch]
  split
  · exact h
  · next hok =>
    have hnone := hquiet (by rw [hok]; rfl)
    obtain ⟨row, hrow, hstatus, hoffset, hroom⟩ := of_patchVerdict s hok
    have hsize := (h.declared row hrow).1
    have hk : Kept { s with file := some s.bytes } :=
      ⟨⟨h.told, h.kept, h.fits, h.whole, h.unwritten⟩, h.declared⟩
    rw [hoffset]
    have hf : Streams { s with file := some s.bytes }
        { pos := s.bytes.length, remain := req.contentLength.toNat,
          final := s.bytes.length + req.contentLength.toNat } :=
      ⟨⟨row, hrow, hstatus, hroom.resolve_left (Int.not_le.2 hsize)⟩, rfl, rfl, rfl⟩
    dsimp only
    split
    · split
      · next hdone => exact hk.finishPatch hf (fun c _ => hnone c) hdone close
      · next hmore => exact hk.goOn hf (fun c _ => hnone c) (Nat.pos_of_ne_zero hmore)
    · exact hk.writePatch hf (fun c _ => hnone c) (length_take_le ..) io close

/-- Nothing goes on when a whole file is renamed: a patch would have more to write. -/
theorem Inv.complete (h : s.Inv) (hdone : ∃ row, s.row = some row ∧
    row.uploadStatus = "uploading" ∧ (row.expectedSize ≤ 0 ∨ s.bytes.length = row.expectedSize)) :
    Inv { s with
      row := s.row.map ({ · with uploadStatus := "ready" })
      sizeBytes := s.bytes.length } := by
  obtain ⟨row, hrow, -, hwhole⟩ := hdone
  have hsize := (h.declared row hrow).1
  have hall : (s.bytes.length : Int) = row.expectedSize := hwhole.resolve_left (Int.not_le.2 hsize)
  exact {
    told := h.told
    kept := fun a ha _ => h.kept a ha (by rw [hrow]; exact Option.some_ne_none row)
    fits := by
      rw [hrow]
      rintro _ ⟨⟩
      exact Int.le_of_eq hall
    whole := by
      rw [hrow]
      rintro _ ⟨⟩ -
      exact hall
    unwritten := h.unwritten
    declared := by
      rw [hrow]
      rintro _ ⟨⟩
      exact ⟨hsize, .inr ⟨rfl, rfl⟩⟩
    alone := fun c f hf => by
      obtain ⟨hstream, hremain, -⟩ := h.alone c f hf
      obtain ⟨row', hrow', -, hroom⟩ := hstream.uploading
      cases hrow.symm.trans hrow'
      have hcount := hstream.count
      have hpos := hstream.pos
      omega }

theorem Inv.step {s' : Upload} {l : Label} (h : s.Inv) (hl : Undisturbed s l)
    (hs : s.step l = some s') : s'.Inv := by
  cases l with
  | patch c e uid req id buffered io close =>
    rw [Upload.step] at hs
    split at hs
    · cases hs
      exact h.handlePatch hl
    · cases hs
  | read c body io close =>
    rw [Upload.step] at hs
    split at hs
    · next f hf =>
      obtain ⟨hstream, -, hothers⟩ := h.alone c f hf
      split at hs
      · next hlength =>
        cases hs
        exact h.toKept.writePatch hstream hothers (hlength ▸ Nat.min_le_left ..) io close
      · cases hs
    · cases hs
  | die c flushed =>
    obtain ⟨f, hf, rfl⟩ := Option.map_eq_some_iff.1 hs
    obtain ⟨hstream, -, hothers⟩ := h.alone c f hf
    rw [hstream.write]
    have hsome : (f.buffered.take flushed).length ≤ f.buffered.length + f.remain :=
      Nat.le_trans (length_take_le' ..) (Nat.le_add_right ..)
    exact (h.append hstream hsome).close hothers
  | head e uid id =>
    cases hs
    rw [handleHeadStatus]
    split
    · exact h
    · next hok =>
      refine h.answer ?_
      split
      · rfl
      · next hstatus =>
        obtain ⟨row, hrow⟩ := of_headVerdict s hok
        obtain hup | ⟨-, hsize⟩ := (h.declared row hrow).2
        · exact absurd (by rw [status, hrow, Option.map_some, hup]) hstatus
        · exact hsize
  | complete e uid id =>
    cases hs
    rw [handleComplete]
    split
    · exact h
    · next hok => exact h.complete (of_completeVerdict s hok)
  | delete e uid id =>
    cases hs
    rw [handleDelete]
    split
    · exact h
    · next hok =>
      have hnone := hl (by rw [hok]; rfl)
      exact {
        told := h.told
        kept := fun _ _ hr => absurd rfl hr
        fits := by rintro _ ⟨⟩
        whole := by rintro _ ⟨⟩
        unwritten := h.unwritten
        declared := by rintro _ ⟨⟩
        alone := fun c f hf => by cases (hnone c).symm.trans hf }

/-- Two bytes are declared. -/
def twoBytes : Upload where
  row := some { uploadStatus := "uploading", uploaderUid := 1, expectedSize := 2,
                storagePath := "7_file", channelId := "general", purgedAt := 0,
                thumbnailSizeBytes := 0, thumbnailSizesMask := 0 }
  file := some []

def patchTwo (c : Nat) : Label :=
  .patch c HttpConn.uploading 1 { headers := [("upload-offset", "0")], contentLength := 2 } 7 []
    ⟨0, true⟩ ⟨0, true⟩

/-- As long as no patch or abort is let through while a patch goes on, uploads are intact. -/
theorem upload_intact {s : Upload} (h : (system.given Undisturbed).Reachable s) : s.Intact :=
  (System.reachable_invariant (S := system.given Undisturbed) (I := Inv) (fun _ => Inv.init)
    (fun _ _ _ hi hs => hi.step hs.2 hs.1) h).toIntact

theorem upload_intact_twoBytes : ∃ s, (system.given Undisturbed).Reachable s ∧
    s.status = some "ready" ∧ s.bytes = [1, 2] ∧ s.Intact := by
  have h₀ : (system.given Undisturbed).Reachable twoBytes := .init ⟨_, _, rfl, by decide, rfl, rfl⟩
  have h₁ := h₀.step (patchTwo 0) ⟨rfl, fun _ _ => rfl⟩
  have h₂ := h₁.step (Label.read 0 [1, 2] ⟨0, true⟩ ⟨0, true⟩)
    ⟨(Option.some_get (by decide +kernel)).symm, trivial⟩
  have h₃ := h₂.step (Label.complete HttpConn.uploading 1 7) ⟨rfl, trivial⟩
  exact ⟨_, h₃, by decide +kernel, by decide +kernel, upload_intact h₃⟩

/-- Both are let through before their bytes come. -/
def bothAtOnce : List Label :=
  [patchTwo 0, patchTwo 1, .read 1 [3, 4] ⟨0, true⟩ ⟨0, true⟩, .complete HttpConn.uploading 1 7,
    .read 0 [1, 2] ⟨0, true⟩ ⟨0, true⟩]

theorem rival_patch : ¬∀ s, system.Reachable s → s.Intact := by
  intro h
  have hreachable := System.Reachable.of_foldlM (S := system) (fun _ _ _ h => h)
    (.init ⟨_, _, rfl, by decide, rfl, rfl⟩)
    (by decide +kernel : (bothAtOnce.foldlM step twoBytes).isSome)
  exact absurd (h _ hreachable).unwritten (by decide +kernel)

end Upload
end Decibell.Community
