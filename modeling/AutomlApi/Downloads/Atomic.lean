import AutomlApi.Downloads.Client

/-! What a call leaves behind: the destination as it was or the artifact of the ticket, and
a `.part` file only of a transfer that may be resumed. -/

namespace AutomlApi.Downloads

-- Only the elements of a list are asked, not every character.
attribute [local instance (2000)] List.decidableBAll List.decidableBEx

variable {D : Type} [DecidableEq D] {sha256 : Content → D} {ticket : Ticket D} {resume : Bool}

namespace Disk

/-- The same destination, replaced as often. -/
def Same (d e : Disk) : Prop := e.target = d.target ∧ e.replaced = d.replaced

theorem Same.refl (d : Disk) : d.Same d := ⟨rfl, rfl⟩

theorem Same.trans {d e f : Disk} (h : d.Same e) (h' : e.Same f) : d.Same f := ⟨h'.1.trans h.1, h'.2.trans h.2⟩

theorem same_unlink (d : Disk) : d.Same d.unlink := ⟨rfl, rfl⟩

theorem same_write (d : Disk) (bytes : Content) : d.Same (d.write bytes) := ⟨rfl, rfl⟩

theorem same_ite {c : Prop} [Decidable c] (d : Disk) : d.Same (if c then d.unlink else d) := by
  split
  · exact d.same_unlink
  · exact .refl d

theorem same_ite' {c : Prop} [Decidable c] (d : Disk) : d.Same (if c then d else d.unlink) := by
  split
  · exact .refl d
  · exact d.same_unlink

end Disk

/-! ### The destination -/

omit [DecidableEq D] in
theorem same_request (ranged : Bool) (offset : ℕ) (reply : Reply) (d : Disk) :
    d.Same (request ticket ranged offset reply d).2 := by
  unfold request
  split
  · exact .refl d
  · exact .refl d
  · split
    · exact .refl d
    · exact d.same_write _

variable (ticket resume) in
omit [DecidableEq D] in
theorem same_attemptOnce (server : Option ℕ → Reply) (d : Disk) : d.Same (attemptOnce ticket resume server d).2 := by
  have hfitting : d.Same (fitting ticket d) := d.same_ite
  have hcontinued : d.Same (continued ticket resume (fitting ticket d)) := hfitting.trans (Disk.same_ite _)
  unfold attemptOnce
  dsimp only
  split
  · exact hfitting
  · exact hcontinued.trans (same_request _ _ _ _)

variable (ticket resume) in
omit [DecidableEq D] in
theorem same_downloadToPart (server : ℕ → Option ℕ → Reply) (left attempt : ℕ) (d : Disk) :
    d.Same (downloadToPart ticket resume server left attempt d).2 := by
  induction left generalizing attempt d with
  | zero =>
    have hd := same_attemptOnce ticket resume (server attempt) d
    rw [downloadToPart]
    split
    · next h => rwa [h] at hd
    · next h => rwa [h] at hd
    · next h =>
      rw [h] at hd
      exact hd.trans (Disk.same_ite' _)
  | succ left ih =>
    have hd := same_attemptOnce ticket resume (server attempt) d
    rw [downloadToPart]
    split
    · next h => rwa [h] at hd
    · next h => rwa [h] at hd
    · next h =>
      rw [h] at hd
      exact (hd.trans (Disk.same_ite' _)).trans (ih _ _)

/-! ### How a call ends -/

/-- The bytes are those of the ticket. -/
structure Verified (sha256 : Content → D) (ticket : Ticket D) (bytes : Content) : Prop where
  size : bytes.length = ticket.sizeBytes
  digest : sha256 bytes = ticket.sha256

/-- It returned, and the destination was replaced by the artifact. -/
structure Replaced (sha256 : Content → D) (ticket : Ticket D) (d : Disk) (done : Except Failure Unit × Disk) : Prop where
  returned : done.1 = .ok ()
  target : ∃ bytes, done.2.target = some bytes ∧ Verified sha256 ticket bytes
  once : done.2.replaced = d.replaced + 1

/-- It raised, and the destination is as it was. -/
structure Failed (d : Disk) (done : Except Failure Unit × Disk) : Prop where
  raised : ∃ error, done.1 = .error error
  same : d.Same done.2

omit [DecidableEq D] in
theorem replaced_replace {d e : Disk} {bytes : Content} (hd : d.Same e) (h : Verified sha256 ticket bytes) :
    Replaced sha256 ticket d (.ok (), e.replace bytes) :=
  ⟨rfl, ⟨bytes, rfl, h⟩, congrArg (· + 1) hd.2⟩

theorem verifyPart_cases {d e : Disk} (hd : d.Same e) :
    Replaced sha256 ticket d (verifyPart sha256 ticket e) ∨ Failed d (verifyPart sha256 ticket e) := by
  unfold verifyPart
  cases e.part with
  | none => exact .inr ⟨⟨_, rfl⟩, hd⟩
  | some bytes =>
    dsimp only
    split
    · exact .inr ⟨⟨_, rfl⟩, hd⟩
    · next hsize =>
      split
      · exact .inr ⟨⟨_, rfl⟩, hd⟩
      · next hdigest => exact .inl (replaced_replace hd ⟨not_not.mp hsize, not_not.mp hdigest⟩)

theorem fetched_cases {d e : Disk} (hd : d.Same e) (retries : ℕ) (server : ℕ → Option ℕ → Reply) :
    Replaced sha256 ticket d (fetched sha256 ticket resume retries server e) ∨
      Failed d (fetched sha256 ticket resume retries server e) := by
  have hpart := same_downloadToPart ticket resume server retries 0 e
  unfold fetched
  split
  · next h =>
    rw [h] at hpart
    exact verifyPart_cases (hd.trans hpart)
  · next h =>
    rw [h] at hpart
    exact .inr ⟨⟨_, rfl⟩, hd.trans hpart⟩

variable (resume) in
theorem same_cleaned (done : Except Failure Unit × Disk) :
    (cleaned resume done).1 = done.1 ∧ done.2.Same (cleaned resume done).2 := by
  unfold cleaned
  split
  · exact ⟨rfl, .refl _⟩
  · exact ⟨rfl, Disk.same_ite' _⟩
  · exact ⟨rfl, Disk.same_unlink _⟩

omit [DecidableEq D] in
/-- The clean-up changes neither the result nor the destination. -/
theorem cleaned_cases {d : Disk} {done : Except Failure Unit × Disk}
    (h : Replaced sha256 ticket d done ∨ Failed d done) :
    Replaced sha256 ticket d (cleaned resume done) ∨ Failed d (cleaned resume done) := by
  obtain ⟨hresult, hsame⟩ := same_cleaned resume done
  rcases h with ⟨hreturned, ⟨bytes, hbytes, hverified⟩, honce⟩ | ⟨⟨error, herror⟩, hd⟩
  · exact .inl ⟨hresult.trans hreturned, ⟨bytes, hsame.1.trans hbytes, hverified⟩, hsame.2.trans honce⟩
  · exact .inr ⟨⟨error, hresult.trans herror⟩, hd.trans hsame⟩

variable (sha256 ticket resume) in
/-- The artifact is there already, or it is fetched. -/
theorem downloadTicket_eq (retries : ℕ) (server : ℕ → Option ℕ → Reply) (d : Disk) :
    (∃ bytes, Verified sha256 ticket bytes ∧
        downloadTicket sha256 ticket resume retries server d = (.ok (), (started ticket resume d).replace bytes)) ∨
      ∃ e, (e = started ticket resume d ∨ e = (started ticket resume d).unlink) ∧
        downloadTicket sha256 ticket resume retries server d = cleaned resume (fetched sha256 ticket resume retries server e) := by
  unfold downloadTicket
  dsimp only
  split
  · exact .inr ⟨_, .inl rfl, rfl⟩
  · next bytes _ =>
    split
    · next hsize =>
      split
      · next hdigest => exact .inl ⟨bytes, ⟨hsize, hdigest⟩, rfl⟩
      · exact .inr ⟨_, .inr rfl, rfl⟩
    · exact .inr ⟨_, .inl rfl, rfl⟩

theorem downloadTicket_cases (retries : ℕ) (server : ℕ → Option ℕ → Reply) (d : Disk) :
    Replaced sha256 ticket d (downloadTicket sha256 ticket resume retries server d) ∨
      Failed d (downloadTicket sha256 ticket resume retries server d) := by
  have hstarted : d.Same (started ticket resume d) := Disk.same_ite' d
  rcases downloadTicket_eq sha256 ticket resume retries server d with ⟨bytes, hbytes, heq⟩ | ⟨e, rfl | rfl, heq⟩
  · exact .inl (heq ▸ replaced_replace hstarted hbytes)
  · exact heq ▸ cleaned_cases (fetched_cases hstarted retries server)
  · exact heq ▸ cleaned_cases (fetched_cases (hstarted.trans (Disk.same_unlink _)) retries server)

/-- The clean-up leaves a file only after a transport error of a call that resumes. -/
theorem part_cleaned {done : Except Failure Unit × Disk} {error : Failure} (herror : (cleaned resume done).1 = .error error)
    (hpart : (cleaned resume done).2.part ≠ none) : resume = true ∧ ∃ n, error = .transport n := by
  obtain ⟨result, d⟩ := done
  cases result with
  | ok u => cases herror
  | error e =>
    cases e with
    | transport n =>
      cases herror
      refine ⟨?_, n, rfl⟩
      cases resume
      · exact absurd rfl hpart
      · rfl
    | _ => exact absurd rfl hpart

theorem part_downloadTicket {retries : ℕ} {server : ℕ → Option ℕ → Reply} {d : Disk} {error : Failure}
    (herror : (downloadTicket sha256 ticket resume retries server d).1 = .error error)
    (hpart : (downloadTicket sha256 ticket resume retries server d).2.part ≠ none) :
    resume = true ∧ ∃ n, error = .transport n := by
  rcases downloadTicket_eq sha256 ticket resume retries server d with ⟨bytes, -, heq⟩ | ⟨e, -, heq⟩
  · rw [heq] at herror
    cases herror
  · rw [heq] at herror hpart
    exact part_cleaned herror hpart

/-! ### A correct server -/

/-- The response has the rest of the content. -/
structure Response.Sends (r : Response) (ticket : Ticket D) (content : Content) (offset : ℕ) : Prop where
  status : r.status = if offset = 0 then 200 else 206
  etag : r.etag = some ticket.etag
  length : readLength r.contentLength = .ok ((content.length : ℤ) - offset)
  plain : ¬ ∃ encoding ∈ r.contentEncoding, encoding ≠ "" ∧ encoding.toLower ≠ "identity"
  range : offset ≠ 0 → readRange r.contentRange = .ok [(offset : ℤ), (content.length : ℤ) - 1, (content.length : ℤ)]
  body : r.chunks.flatten = content.drop offset
  ending : r.ending = .complete

/-- The server has the artifact of the ticket, and its ranges where the ticket says so. -/
structure Serves (sha256 : Content → D) (ticket : Ticket D) (content : Content) (server : ℕ → Option ℕ → Reply) : Prop where
  verified : Verified sha256 ticket content
  whole : ∀ attempt, ∃ r, server attempt none = .response r ∧ r.Sends ticket content 0
  rest : ticket.supportsRange = true → ∀ attempt offset, 0 < offset → offset < content.length →
    ∃ r, server attempt (some offset) = .response r ∧ r.Sends ticket content offset

theorem receive_complete {expected downloaded : ℕ} {file : Content} {chunks : List Content}
    (h : downloaded + chunks.flatten.length = expected) :
    receive expected .complete downloaded file chunks = (.ok (), file ++ chunks.flatten) := by
  induction chunks generalizing downloaded file with
  | nil =>
    have hall : downloaded = expected := by simpa using h
    simp [receive, refuse, hall]
  | cons chunk chunks ih =>
    rw [List.flatten_cons, List.length_append] at h
    rw [receive]
    split
    · next hempty =>
      subst hempty
      rw [ih (by simpa using h)]
      rfl
    · rw [if_neg (by omega), ih (by omega), List.flatten_cons, List.append_assoc]

omit [DecidableEq D] in
theorem validate_sends {content : Content} {offset : ℕ} {r : Response} (hsize : content.length = ticket.sizeBytes)
    (h : r.Sends ticket content offset) :
    validateDownloadResponse ticket (decide (offset ≠ 0)) offset r = .ok () := by
  have hstatus : r.status = if (decide (offset ≠ 0)) = true then 206 else 200 := by
    rw [h.status]
    by_cases hzero : offset = 0 <;> simp [hzero]
  have hlength := h.length
  rw [hsize] at hlength
  unfold validateDownloadResponse
  dsimp only
  rw [if_neg (not_not.mpr hstatus), refuse, if_neg (not_not.mpr h.etag), except_ok_bind, hlength, except_ok_bind, refuse,
    if_neg (not_not.mpr rfl), except_ok_bind, refuse, if_neg h.plain, except_ok_bind, checkRange]
  split
  · next hranged =>
    have hrange := h.range (of_decide_eq_true hranged)
    rw [hsize] at hrange
    rw [hrange]
    simp [refuse, Except.bind]
  · rfl

omit [DecidableEq D] in
/-- One request to a correct server completes the file. -/
theorem request_serves {content : Content} {offset : ℕ} {r : Response} {d : Disk} (hsize : content.length = ticket.sizeBytes)
    (hoffset : offset ≤ content.length) (h : r.Sends ticket content offset) :
    request ticket (decide (offset ≠ 0)) offset (.response r) d =
      (.ok (), d.write ((if offset ≠ 0 then d.part.getD [] else []) ++ content.drop offset)) := by
  have hreceive : ∀ file, receive ticket.sizeBytes r.ending offset file r.chunks = (.ok (), file ++ content.drop offset) := by
    intro file
    rw [h.ending, receive_complete (by rw [h.body, List.length_drop]; omega), h.body]
  unfold request
  simp only [validate_sends hsize h, hreceive, decide_eq_true_eq]

variable (resume) in
omit [DecidableEq D] in
/-- A correct server completes the file at the first attempt: the artifact, where there was no file. -/
theorem attemptOnce_serves {content : Content} {server : ℕ → Option ℕ → Reply} (h : Serves sha256 ticket content server)
    (attempt : ℕ) (d : Disk) :
    ∃ e bytes, attemptOnce ticket resume (server attempt) d = (.ok (), e) ∧ e.part = some bytes ∧
      (d.part = none → bytes = content) := by
  have hsize := h.verified.size
  have hfit : (fitting ticket d).size ≤ content.length := by
    unfold fitting
    split
    · exact Nat.zero_le _
    · omega
  unfold attemptOnce
  dsimp only
  split
  · next hdone =>
    obtain ⟨bytes, hbytes⟩ := Option.isSome_iff_exists.mp hdone.1
    refine ⟨_, bytes, rfl, hbytes, fun hnone => ?_⟩
    unfold fitting at hbytes
    split at hbytes
    · cases hbytes
    · rw [hnone] at hbytes
      cases hbytes
  · next hmissing =>
    have hnone : d.part = none → (continued ticket resume (fitting ticket d)).size = 0 := by
      intro hnone
      have hfitting : (fitting ticket d).part = none := by
        unfold fitting
        split
        · rfl
        · exact hnone
      unfold continued
      split
      · rfl
      · simp [Disk.size, hfitting]
    by_cases hzero : (continued ticket resume (fitting ticket d)).size = 0
    · obtain ⟨r, hr, hsends⟩ := h.whole attempt
      rw [hzero]
      simp only [ne_eq, not_true_eq_false, decide_false, Bool.false_eq_true, if_false, hr]
      have hrequest := request_serves (d := continued ticket resume (fitting ticket d)) hsize (Nat.zero_le _) hsends
      simp only [ne_eq, not_true_eq_false, decide_false, if_false] at hrequest
      exact ⟨_, _, hrequest, rfl, fun _ => by simp⟩
    · have hkept : continued ticket resume (fitting ticket d) = fitting ticket d ∧ ticket.supportsRange = true := by
        unfold continued at hzero ⊢
        split at hzero
        · exact absurd rfl hzero
        · next hkeep =>
          rw [if_neg hkeep]
          refine ⟨rfl, ?_⟩
          by_contra hno
          exact hkeep ⟨hzero, fun hboth => hno hboth.2⟩
      have hlt : (fitting ticket d).size < content.length := by
        rw [hkept.1] at hzero
        have hsome : (fitting ticket d).part.isSome := by
          cases hpart : (fitting ticket d).part with
          | none => exact absurd (by simp [Disk.size, hpart]) hzero
          | some bytes => rfl
        have hne : (fitting ticket d).size ≠ ticket.sizeBytes := fun heq => hmissing ⟨hsome, heq⟩
        omega
      rw [hkept.1] at hzero hnone ⊢
      obtain ⟨r, hr, hsends⟩ := h.rest hkept.2 attempt _ (Nat.pos_of_ne_zero hzero) hlt
      have hrequest := request_serves (d := fitting ticket d) hsize hfit hsends
      simp only [decide_eq_true_eq, if_pos hzero, hr]
      exact ⟨_, _, hrequest, rfl, fun h => absurd (hnone h) hzero⟩

variable (resume) in
omit [DecidableEq D] in
theorem downloadToPart_serves {content : Content} {server : ℕ → Option ℕ → Reply} (h : Serves sha256 ticket content server)
    (retries : ℕ) (d : Disk) :
    ∃ e bytes, downloadToPart ticket resume server retries 0 d = (.ok (), e) ∧ e.part = some bytes ∧
      (d.part = none → bytes = content) := by
  obtain ⟨e, bytes, he, hbytes⟩ := attemptOnce_serves resume h 0 d
  refine ⟨e, bytes, ?_, hbytes⟩
  unfold downloadToPart
  rw [he]

variable (resume) in
/-- A call to a correct server leaves no `.part` file, and returns where there was none. -/
theorem downloadTicket_serves {content : Content} {server : ℕ → Option ℕ → Reply} (h : Serves sha256 ticket content server)
    (retries : ℕ) (d : Disk) :
    (downloadTicket sha256 ticket resume retries server d).2.part = none ∧
      (d.part = none → (downloadTicket sha256 ticket resume retries server d).1 = .ok ()) := by
  rcases downloadTicket_eq sha256 ticket resume retries server d with ⟨bytes, -, heq⟩ | ⟨e, he, heq⟩
  · rw [heq]
    exact ⟨rfl, fun _ => rfl⟩
  · obtain ⟨f, bytes, hf, hbytes, hcontent⟩ := downloadToPart_serves resume h retries e
    have hfetched : fetched sha256 ticket resume retries server e = verifyPart sha256 ticket f := by
      unfold fetched
      rw [hf]
    rw [heq, hfetched]
    unfold verifyPart
    rw [hbytes]
    dsimp only
    constructor
    · split
      · rfl
      · split <;> rfl
    · intro hnone
      have hpart : e.part = none := by
        rcases he with rfl | rfl
        · unfold started
          split
          · exact hnone
          · rfl
        · rfl
      rw [hcontent hpart, if_neg (not_not.mpr h.verified.size), if_neg (not_not.mpr h.verified.digest)]
      rfl

/-! ### Calls -/

/-- The call meets a server that has the artifact of its ticket. -/
def Call.Correct (sha256 : Content → D) (call : Call D) : Prop :=
  ∃ ticket content, call.ticket = .ok ticket ∧ Serves sha256 ticket content call.server

theorem calls_of_part_eq_none (rest : List (Call D)) (h : ∀ call ∈ rest, call.Correct sha256) (d : Disk)
    (hd : d.part = none) : ∀ result ∈ (calls sha256 rest d).1, result = .ok () := by
  induction rest generalizing d with
  | nil =>
    intro result hresult
    cases hresult
  | cons call rest ih =>
    obtain ⟨⟨ticket, content, hticket, hserves⟩, hrest⟩ := List.forall_mem_cons.mp h
    have hdone : downloadArtifactFile sha256 call d = downloadTicket sha256 ticket call.resume call.retries call.server d := by
      rw [downloadArtifactFile, hticket]
    obtain ⟨hpart, hok⟩ := downloadTicket_serves call.resume hserves call.retries d
    intro result hresult
    rw [calls] at hresult
    rcases List.mem_cons.mp hresult with rfl | hresult
    · rw [hdone]
      exact hok hd
    · exact ih hrest _ (by rw [hdone]; exact hpart) result hresult

/-- Whatever `.part` file there was, one call to a correct server fails at most. -/
theorem countP_calls (all : List (Call D)) (h : ∀ call ∈ all, call.Correct sha256) (d : Disk) :
    (calls sha256 all d).1.countP (fun result => result ≠ .ok ()) ≤ 1 := by
  cases all with
  | nil => exact Nat.zero_le 1
  | cons call rest =>
    obtain ⟨⟨ticket, content, hticket, hserves⟩, hrest⟩ := List.forall_mem_cons.mp h
    have hpart : (downloadArtifactFile sha256 call d).2.part = none := by
      rw [downloadArtifactFile, hticket]
      exact (downloadTicket_serves call.resume hserves call.retries d).1
    have hlater : (calls sha256 rest (downloadArtifactFile sha256 call d).2).1.countP (fun result => result ≠ .ok ()) = 0 := by
      refine List.countP_eq_zero.mpr fun result hresult => ?_
      simp [calls_of_part_eq_none rest hrest _ hpart result hresult]
    rw [calls, List.countP_cons, hlater]
    split <;> simp

theorem download_atomic (sha256 : Content → D) (d : Disk) :
    (∀ call : Call D,
      (match call.ticket with
        | .error _ => Failed d (downloadArtifactFile sha256 call d)
        | .ok ticket =>
          (Replaced sha256 ticket d (downloadArtifactFile sha256 call d) ∨ Failed d (downloadArtifactFile sha256 call d)) ∧
            ∀ error, (downloadArtifactFile sha256 call d).1 = .error error →
              (downloadArtifactFile sha256 call d).2.part ≠ none → call.resume = true ∧ ∃ n, error = .transport n)) ∧
      ∀ all : List (Call D), (∀ call ∈ all, call.Correct sha256) →
        (calls sha256 all d).1.countP (fun result => result ≠ .ok ()) ≤ 1 := by
  refine ⟨fun call => ?_, fun all h => countP_calls all h d⟩
  unfold downloadArtifactFile
  cases call.ticket with
  | error error => exact ⟨⟨error, rfl⟩, .refl d⟩
  | ok ticket => exact ⟨downloadTicket_cases call.retries call.server d, fun error => part_downloadTicket⟩

/-- Two bytes, and a server that has them. -/
def greeting : Call Content where
  ticket := .ok { etag := "\"hi\"", sha256 := [104, 105], sizeBytes := 2, supportsRange := true }
  retries := 2
  server _
    | none => .response { status := 200, etag := "\"hi\"", contentLength := "2", chunks := [[104], [105]] }
    | some _ =>
      .response
        { status := 206, etag := "\"hi\"", contentLength := "1", contentRange := "bytes 1-1/2", chunks := [[105]] }

/-- The first call appends to a byte of another file and fails, the second does not. -/
theorem download_atomic_greeting :
    (calls id [greeting, greeting] { part := some [0] }).1.countP (fun result => result ≠ .ok ()) ≤ 1 := by
  refine (download_atomic id { part := some [0] }).2 [greeting, greeting] fun call hcall => ?_
  have hgreeting : call = greeting := by simpa using hcall
  refine ⟨_, [104, 105], by rw [hgreeting]; rfl, ⟨rfl, rfl⟩, fun attempt => ?_, fun _ attempt offset hpos hlt => ?_⟩
  · rw [hgreeting]
    exact ⟨_, rfl, ⟨rfl, rfl, by decide +kernel, by simp, fun h => absurd rfl h, rfl, rfl⟩⟩
  · have hone : offset = 1 := by
      have hlength : offset < 2 := hlt
      omega
    rw [hgreeting, hone]
    exact ⟨_, rfl, ⟨rfl, rfl, by decide +kernel, by simp, fun _ => by decide +kernel, rfl, rfl⟩⟩

end AutomlApi.Downloads
