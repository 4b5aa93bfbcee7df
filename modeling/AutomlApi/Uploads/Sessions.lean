import AutomlApi.Library.Checked
import AutomlApi.Requests.Idempotent
import AutomlApi.Webhooks.Times
import Mathlib.Data.List.Sort

/-! The upload sessions of dataset versions. A session is to be used within an hour of its
creation. A part is signed for fifteen minutes, whatever is left of the session; and the
times are compared as texts. -/

namespace AutomlApi.Uploads

open Requests (APIProblem)
open Webhooks (Datetime)

inductive DatasetStatus where
  | uploading | validating | ready | rejected | deleting | deleted
  deriving DecidableEq

/-- What the calls on parts read of a dataset version. -/
structure Version where
  tenantId : String
  status : DatasetStatus
  uploadId : String
  uploadExpiresAt : Option String
  deriving DecidableEq

structure UploadPart where
  partNumber : ℕ
  url : String
  expiresAt : String
  requiredHeaders : List (String × String)
  deriving DecidableEq

/-- `DatasetUploadSession`, and `UploadPartsResponse`. -/
structure Session where
  datasetVersionId : String
  uploadId : String
  expiresAt : String
  parts : List UploadPart
  deriving DecidableEq

def notFound : APIProblem where
  status := 404
  code := "not_found"
  title := "Resource not found"
  detail := "The resource does not exist or is not visible to this principal."

def uploadNotActive : APIProblem where
  status := 409
  code := "upload_not_active"
  title := "Upload is not active"
  detail := "The upload session is no longer active for this dataset version."

def uploadExpired : APIProblem where
  status := 410
  code := "upload_expired"
  title := "Upload session expired"
  detail := "Create a new dataset upload session."

/-- `upload_url`. -/
def uploadUrl (publicBaseUrl datasetVersionId uploadId : String) (partNumber : ℕ) : String :=
  let base := String.ofList (publicBaseUrl.toList.reverse.dropWhile (· = '/')).reverse
  base ++ "/v1/dataset-versions/" ++ datasetVersionId ++ "/upload-parts/" ++ toString partNumber ++ "?upload_id=" ++ uploadId

/-- `_upload_part`. -/
def uploadPart (publicBaseUrl datasetVersionId uploadId : String) (partNumber : ℕ) (expiresAt : String) : UploadPart where
  partNumber := partNumber
  url := uploadUrl publicBaseUrl datasetVersionId uploadId partNumber
  expiresAt := expiresAt
  requiredHeaders := [("x-automl-upload-part", toString partNumber)]

/-- The versions of the store. -/
abbrev Versions := Dict String Version

namespace Versions

/-- `_owned`. -/
def owned (s : Versions) (tenantId datasetVersionId : String) : Except APIProblem Version :=
  match s.get datasetVersionId with
  | none => .error notFound
  | some version => if version.tenantId ≠ tenantId then .error notFound else .ok version

/-- The part of `create_dataset` after its checks. The store draws the two identifiers, and
`utcnow` is its second reading of the clock. -/
def createDataset (s : Versions) (tenantId publicBaseUrl datasetVersionId uploadId : String) (utcnow : Datetime) :
    Option (Versions × Session) :=
  (utcnow.addMinutes 60).map fun expiresAt =>
    (s.set datasetVersionId ⟨tenantId, .uploading, uploadId, some expiresAt.iso⟩,
      ⟨datasetVersionId, uploadId, expiresAt.iso, [uploadPart publicBaseUrl datasetVersionId uploadId 1 expiresAt.iso]⟩)

/-- The check of an upload that `sign_upload_parts` and `put_upload_part` make. -/
def active (s : Versions) (tenantId datasetVersionId uploadId : String) : Except APIProblem Version := do
  let version ← s.owned tenantId datasetVersionId
  refuse uploadNotActive (version.status ≠ .uploading ∨ uploadId ≠ version.uploadId)
  .ok version

/-- `sign_upload_parts`. The inner result is missing where the clock is at the end of the
calendar. -/
def signUploadParts (s : Versions) (tenantId publicBaseUrl datasetVersionId uploadId : String) (partNumbers : List ℕ)
    (utcnow : Datetime) : Except APIProblem (Option Session) := do
  let version ← s.active tenantId datasetVersionId uploadId
  .ok ((utcnow.addMinutes 15).map fun expiresAt =>
    ⟨datasetVersionId, version.uploadId, expiresAt.iso, (partNumbers.insertionSort (· ≤ ·)).map fun part =>
      uploadPart publicBaseUrl datasetVersionId version.uploadId part expiresAt.iso⟩)

end Versions

/-- The session of a version has expired, as `put_upload_part` decides it. -/
def expired (uploadExpiresAt : Option String) (isoNow : String) : Bool := uploadExpiresAt.any (· < isoNow)

/-- The part of `put_upload_part` before the bytes go to the blob store, with what the store
is called with. -/
def Versions.putUploadPart (s : Versions) (tenantId datasetVersionId uploadId : String) (partNumber : ℕ)
    (utcnow : Datetime) : Except APIProblem (String × String × String × ℕ) := do
  let version ← s.active tenantId datasetVersionId uploadId
  refuse uploadExpired (expired version.uploadExpiresAt utcnow.iso)
  .ok (tenantId, datasetVersionId, uploadId, partNumber)

/-! ### Histories -/

/-- What changes the versions: new ones, and updates of a status (a finalization, a
deletion), which leave the session alone. -/
inductive SessionStep where
  | create (tenantId publicBaseUrl datasetVersionId uploadId : String) (utcnow : Datetime)
  | update (datasetVersionId : String) (status : DatasetStatus)

def Versions.step (s : Versions) : SessionStep → Option Versions
  | .create tenantId publicBaseUrl datasetVersionId uploadId utcnow =>
    if s.has datasetVersionId then none
    else (s.createDataset tenantId publicBaseUrl datasetVersionId uploadId utcnow).map Prod.fst
  | .update datasetVersionId status =>
    (s.get datasetVersionId).map fun version => s.set datasetVersionId { version with status := status }

/-- A part that a call returned, and the versions as the call found and left them. The part
is for the given minutes after the reading of the clock. -/
inductive Issued (s : Versions) : Datetime → ℕ → String → String → UploadPart → Versions → Prop
  | create {tenantId publicBaseUrl datasetVersionId uploadId : String} {utcnow : Datetime} {t : Versions}
      {session : Session} {part : UploadPart} (hfresh : ¬ s.has datasetVersionId)
      (h : s.createDataset tenantId publicBaseUrl datasetVersionId uploadId utcnow = some (t, session))
      (hpart : part ∈ session.parts) : Issued s utcnow 60 datasetVersionId session.uploadId part t
  | sign {tenantId publicBaseUrl datasetVersionId uploadId : String} {partNumbers : List ℕ} {utcnow : Datetime}
      {session : Session} {part : UploadPart}
      (h : s.signUploadParts tenantId publicBaseUrl datasetVersionId uploadId partNumbers utcnow = .ok (some session))
      (hpart : part ∈ session.parts) : Issued s utcnow 15 datasetVersionId session.uploadId part s

/-- From `t` on, no put of the part between the two times is refused as expired. -/
def Usable (t : Versions) (datasetVersionId uploadId : String) (part : UploadPart) (issuedAt expiresAt : Datetime) : Prop :=
  ∀ es u, Runs.Run Versions.step Runs.Free t es u → ∀ version, u.get datasetVersionId = some version →
    version.status = .uploading → version.uploadId = uploadId → ∀ now : Datetime, issuedAt ≤ now → now ≤ expiresAt →
      ∀ tenantId, u.putUploadPart tenantId datasetVersionId uploadId part.partNumber now ≠ .error uploadExpired

/-! ### The session of a version -/

theorem owned_eq_ok {s : Versions} {tenantId id : String} {version : Version} :
    s.owned tenantId id = .ok version ↔ s.get id = some version ∧ version.tenantId = tenantId := by
  unfold Versions.owned
  constructor
  · intro h
    split at h
    · cases h
    · next v hv =>
      split at h
      · cases h
      · next htenant =>
        cases h
        exact ⟨hv, not_not.mp htenant⟩
  · rintro ⟨h, rfl⟩
    simp [h]

theorem active_eq_ok {s : Versions} {tenantId id uploadId : String} {version : Version} :
    s.active tenantId id uploadId = .ok version ↔
      s.get id = some version ∧ version.tenantId = tenantId ∧ version.status = .uploading ∧ version.uploadId = uploadId := by
  unfold Versions.active
  constructor
  · intro h
    obtain ⟨v, hv, h⟩ := except_bind_eq_ok h
    obtain ⟨hactive, h⟩ := refuse_bind_eq_ok h
    cases h
    obtain ⟨hget, htenant⟩ := owned_eq_ok.mp hv
    push Not at hactive
    exact ⟨hget, htenant, hactive.1, hactive.2.symm⟩
  · rintro ⟨h, rfl, hstatus, rfl⟩
    rw [owned_eq_ok.mpr ⟨h, rfl⟩]
    simp [refuse, hstatus]

theorem active_ne_expired (s : Versions) (tenantId id uploadId : String) :
    s.active tenantId id uploadId ≠ .error uploadExpired := by
  intro h
  have hstatus : ∀ e, s.active tenantId id uploadId = .error e → e.status ≠ 410 := fun e he => by
    unfold Versions.active at he
    cases howned : s.owned tenantId id with
    | error e' =>
      rw [howned] at he
      unfold Versions.owned at howned
      split at howned
      · cases howned
        cases he
        decide
      · split at howned
        · cases howned
          cases he
          decide
        · cases howned
    | ok version =>
      rw [howned] at he
      simp only [except_ok_bind, refuse] at he
      split at he
      · cases he
        decide
      · cases he
  exact hstatus _ h rfl

/-- A put is refused as expired when the text of the session's end is before the one of the
time. -/
theorem putUploadPart_expired_iff (s : Versions) (tenantId id uploadId : String) (partNumber : ℕ) (now : Datetime) :
    s.putUploadPart tenantId id uploadId partNumber now = .error uploadExpired ↔
      ∃ version, s.active tenantId id uploadId = .ok version ∧ expired version.uploadExpiresAt now.iso := by
  unfold Versions.putUploadPart
  cases hactive : s.active tenantId id uploadId with
  | error e =>
    refine iff_of_false ?_ nofun
    intro h
    cases h
    exact active_ne_expired _ _ _ _ hactive
  | ok version => by_cases h : expired version.uploadExpiresAt now.iso <;> simp [refuse, h]

theorem expired_iff (e now : Datetime) :
    expired (some e.iso) now.iso ↔ e.toSecond < now.toSecond ∨
      e.toSecond = now.toSecond ∧ e.microsecond ≠ 0 ∧ (now.microsecond = 0 ∨ e.microsecond < now.microsecond) := by
  rw [expired, Option.any_some, decide_eq_true_iff, Datetime.iso_lt_iff, Datetime.fraction_lt_iff]

/-- Every session ends at a time. -/
def Timed (s : Versions) : Prop := ∀ id version, s.get id = some version → ∃ e : Datetime, version.uploadExpiresAt = some e.iso

/-- What a step leaves of a session. -/
def Kept (s t : Versions) : Prop := ∀ id version, s.get id = some version → ∃ version', t.get id = some version' ∧
  version'.tenantId = version.tenantId ∧ version'.uploadId = version.uploadId ∧
  version'.uploadExpiresAt = version.uploadExpiresAt

theorem createDataset_eq_some {s t : Versions} {tenantId publicBaseUrl id uploadId : String} {utcnow : Datetime}
    {session : Session} (h : s.createDataset tenantId publicBaseUrl id uploadId utcnow = some (t, session)) :
    ∃ e, utcnow.addMinutes 60 = some e ∧ t = s.set id ⟨tenantId, .uploading, uploadId, some e.iso⟩ ∧
      session = ⟨id, uploadId, e.iso, [uploadPart publicBaseUrl id uploadId 1 e.iso]⟩ := by
  obtain ⟨e, he, heq⟩ := Option.map_eq_some_iff.mp h
  cases heq
  exact ⟨e, he, rfl, rfl⟩

theorem kept_step {s t : Versions} {l : SessionStep} (h : s.step l = some t) : Kept s t := by
  intro id version hget
  cases l with
  | create tenantId publicBaseUrl id' uploadId utcnow =>
    simp only [Versions.step] at h
    split at h
    · cases h
    · next hfresh =>
      obtain ⟨⟨t, session⟩, hcreate, rfl⟩ := Option.map_eq_some_iff.mp h
      obtain ⟨e, -, rfl, -⟩ := createDataset_eq_some hcreate
      have hne : id ≠ id' := by
        rintro rfl
        exact hfresh (Dict.has_of_get hget)
      exact ⟨version, by rw [Dict.get_set, if_neg hne]; exact hget, rfl, rfl, rfl⟩
  | update id' status =>
    obtain ⟨version', hversion', rfl⟩ := Option.map_eq_some_iff.mp h
    by_cases hid : id = id'
    · subst hid
      cases hget.symm.trans hversion'
      exact ⟨_, Dict.get_set_self .., rfl, rfl, rfl⟩
    · exact ⟨version, by rw [Dict.get_set, if_neg hid]; exact hget, rfl, rfl, rfl⟩

theorem kept_run {s t : Versions} {es : List SessionStep} (run : Runs.Run Versions.step Runs.Free s es t) : Kept s t :=
  run.climbs (R := Kept) (I := fun _ => True) (fun _ _ version h => ⟨version, h, rfl, rfl, rfl⟩)
    (fun s u t hsu hut id version h => by
      obtain ⟨v, hv, htenant, hupload, hexpires⟩ := hsu id version h
      obtain ⟨v', hv', htenant', hupload', hexpires'⟩ := hut id v hv
      exact ⟨v', hv', htenant'.trans htenant, hupload'.trans hupload, hexpires'.trans hexpires⟩)
    (fun _ _ _ _ _ _ => trivial) (fun _ _ _ _ _ h => kept_step h) trivial

theorem timed_step {s t : Versions} (hs : Timed s) {l : SessionStep} (h : s.step l = some t) : Timed t := by
  intro id version hget
  cases l with
  | create tenantId publicBaseUrl id' uploadId utcnow =>
    simp only [Versions.step] at h
    split at h
    · cases h
    · obtain ⟨⟨t, session⟩, hcreate, rfl⟩ := Option.map_eq_some_iff.mp h
      obtain ⟨e, -, rfl, -⟩ := createDataset_eq_some hcreate
      rw [Dict.get_set] at hget
      split at hget
      · cases hget
        exact ⟨e, rfl⟩
      · exact hs id version hget
  | update id' status =>
    obtain ⟨version', hversion', rfl⟩ := Option.map_eq_some_iff.mp h
    rw [Dict.get_set] at hget
    split at hget
    · cases hget
      exact hs id' version' hversion'
    · exact hs id version hget

theorem timed_run {s : Versions} {es : List SessionStep} (run : Runs.Run Versions.step Runs.Free [] es s) : Timed s :=
  run.invariant (fun _ _ _ hs _ h => timed_step hs h) nofun

/-! ### A signed part -/

theorem Issued.session {s t : Versions} {issuedAt : Datetime} {minutes : ℕ} {id uploadId : String} {part : UploadPart}
    (h : Issued s issuedAt minutes id uploadId part t) (hs : Timed s) : ∃ e E version,
      issuedAt.addMinutes minutes = some e ∧ part.expiresAt = e.iso ∧ t.get id = some version ∧
        version.status = .uploading ∧ version.uploadId = uploadId ∧ version.uploadExpiresAt = some (Datetime.iso E) := by
  cases h with
  | create hfresh h hpart =>
    obtain ⟨e, he, rfl, rfl⟩ := createDataset_eq_some h
    cases List.mem_singleton.mp hpart
    exact ⟨e, e, _, he, rfl, Dict.get_set_self .., rfl, rfl, rfl⟩
  | sign h hpart =>
    obtain ⟨version, hactive, h⟩ := except_bind_eq_ok h
    obtain ⟨hget, -, hstatus, -⟩ := active_eq_ok.mp hactive
    obtain ⟨e, he, rfl⟩ := Option.map_eq_some_iff.mp (Except.ok.inj h)
    obtain ⟨number, -, rfl⟩ := List.mem_map.mp hpart
    obtain ⟨E, hE⟩ := hs _ _ hget
    exact ⟨e, E, version, he, rfl, hget, hstatus, rfl, hE⟩

theorem Issued.minutes_pos {s t : Versions} {issuedAt : Datetime} {minutes : ℕ} {id uploadId : String} {part : UploadPart}
    (h : Issued s issuedAt minutes id uploadId part t) : 0 < minutes := by
  cases h <;> decide

/-- No time up to `e`, from a second before it, is refused. -/
theorem not_expired_iff {issuedAt e E : Datetime} (h : issuedAt.toSecond < e.toSecond) :
    (∀ now : Datetime, issuedAt ≤ now → now ≤ e → ¬ expired (some E.iso) now.iso) ↔
      e.toSecond < E.toSecond ∨ e.toSecond = E.toSecond ∧ E.microsecond = 0 := by
  constructor
  · intro hnow
    have hlast := hnow e (.inl h) (.inr ⟨rfl, le_rfl⟩)
    rw [expired_iff] at hlast
    push Not at hlast
    rcases hlast.1.lt_or_eq with hlt | heq
    · exact .inl hlt
    · -- the second begins with a time whose text comes after that of the end
      refine .inr ⟨heq, ?_⟩
      by_contra hmicro
      refine hnow { e with microsecond := 0, microsecond_lt := by decide } (.inl h) (.inr ⟨rfl, Nat.zero_le _⟩) ?_
      exact (expired_iff _ _).mpr (.inr ⟨heq.symm, hmicro, .inl rfl⟩)
  · intro hend now _ hle hexpired
    have hle : now.toSecond ≤ e.toSecond := hle.elim le_of_lt fun h => h.1.le
    rw [expired_iff] at hexpired
    rcases hend with hend | ⟨hend, hmicro⟩
    · rcases hexpired with hlt | ⟨heq, -⟩
      · exact absurd (hlt.trans_le hle) (lt_asymm hend)
      · exact absurd (heq ▸ hle) (not_le.mpr hend)
    · rcases hexpired with hlt | ⟨-, hne, -⟩
      · exact absurd (hend ▸ hlt) (not_lt.mpr hle)
      · exact hne hmicro

/-- A part is usable as advertised if and only if its expiry is in an earlier second than the
end of the session, or in the same one, and the session ends at a whole second. -/
theorem part_usable_iff {es : List SessionStep} {s t : Versions} (run : Runs.Run Versions.step Runs.Free [] es s)
    {issuedAt : Datetime} {minutes : ℕ} {id uploadId : String} {part : UploadPart}
    (h : Issued s issuedAt minutes id uploadId part t) : ∃ e E version,
      issuedAt.addMinutes minutes = some e ∧ part.expiresAt = e.iso ∧
        t.get id = some version ∧ version.uploadExpiresAt = some (Datetime.iso E) ∧
          (Usable t id uploadId part issuedAt e ↔
            e.toSecond < E.toSecond ∨ e.toSecond = E.toSecond ∧ E.microsecond = 0) := by
  obtain ⟨e, E, version, he, hpart, hget, hstatus, hupload, hE⟩ := h.session (timed_run run)
  have hlater : issuedAt.toSecond < e.toSecond := (Datetime.addMinutes_eq_some h.minutes_pos he).1
  refine ⟨e, E, version, he, hpart, hget, hE, ?_⟩
  rw [← not_expired_iff hlater]
  constructor
  · intro husable now hfrom hto hexpired
    refine husable [] t (.nil t) version hget hstatus hupload now hfrom hto version.tenantId ?_
    rw [putUploadPart_expired_iff]
    exact ⟨version, active_eq_ok.mpr ⟨hget, rfl, hstatus, hupload⟩, hE ▸ hexpired⟩
  · intro hnow fs u hrun version' hget' _ _ now hfrom hto tenantId hput
    obtain ⟨v, hactive, hexpired⟩ := (putUploadPart_expired_iff ..).mp hput
    obtain ⟨v', hv', -, -, hexpires⟩ := kept_run hrun id version hget
    cases (active_eq_ok.mp hactive).1.symm.trans hv'
    rw [hexpires, hE] at hexpired
    exact hnow now hfrom hto hexpired

/-! ### A session signed late -/

/-- A time of one evening, to the minute. -/
def evening (hour minute : ℕ) : Datetime := .ofNumbers 2026 1 31 hour minute 0 0

/-- A session from ten past eight. -/
def opening : List SessionStep := [.create "tenant" "http://localhost/" "dsv_1" "upload_1" (evening 20 10)]

def opened : Versions := [("dsv_1", ⟨"tenant", .uploading, "upload_1", some (evening 21 10).iso⟩)]

/-- The first part of the session, for an hour or for less. -/
def firstPart (expiresAt : Datetime) : UploadPart := uploadPart "http://localhost/" "dsv_1" "upload_1" 1 expiresAt.iso

theorem run_opening : Runs.Run Versions.step Runs.Free [] opening opened := .cons trivial rfl (.nil _)

theorem active_opened : opened.active "tenant" "dsv_1" "upload_1" =
    .ok ⟨"tenant", .uploading, "upload_1", some (evening 21 10).iso⟩ :=
  active_eq_ok.mpr ⟨rfl, rfl, rfl, rfl⟩

theorem issued_sign {issuedAt expiresAt : Datetime} (h : issuedAt.addMinutes 15 = some expiresAt) :
    Issued opened issuedAt 15 "dsv_1" "upload_1" (firstPart expiresAt) opened := by
  have hsign : opened.signUploadParts "tenant" "http://localhost/" "dsv_1" "upload_1" [1] issuedAt =
      .ok (some ⟨"dsv_1", "upload_1", expiresAt.iso, [firstPart expiresAt]⟩) := by
    rw [Versions.signUploadParts, active_opened, h]
    rfl
  exact .sign hsign List.mem_cons_self

theorem part_usable_soon : Usable opened "dsv_1" "upload_1" (firstPart (evening 20 55)) (evening 20 40) (evening 20 55) := by
  have hissued : Issued opened (evening 20 40) 15 "dsv_1" "upload_1" (firstPart (evening 20 55)) opened := issued_sign rfl
  obtain ⟨e, E, version, he, -, hget, hE, husable⟩ := part_usable_iff run_opening hissued
  cases hget
  have hE : evening 21 10 = E := Datetime.iso_injective (Option.some.inj hE)
  subst hE
  cases Option.some.inj he
  exact husable.mpr (.inl (by decide))

/-- A part that is signed at nine is advertised for five minutes more than its session lasts. -/
theorem part_expires_early : ¬ ∀ (es : List SessionStep) (s t : Versions) (issuedAt e : Datetime) (minutes : ℕ)
    (id uploadId : String) (part : UploadPart), Runs.Run Versions.step Runs.Free [] es s →
      Issued s issuedAt minutes id uploadId part t → issuedAt.addMinutes minutes = some e →
        Usable t id uploadId part issuedAt e := by
  intro h
  have hissued : Issued opened (evening 21 0) 15 "dsv_1" "upload_1" (firstPart (evening 21 15)) opened := issued_sign rfl
  have husable := h opening opened opened (evening 21 0) (evening 21 15) 15 _ _ _ run_opening hissued rfl
  refine husable [] opened (.nil _) _ rfl rfl rfl (evening 21 12) (by decide) (by decide) "tenant" ?_
  rw [putUploadPart_expired_iff]
  refine ⟨_, active_opened, ?_⟩
  exact (expired_iff (evening 21 10) (evening 21 12)).mpr (by decide)

end AutomlApi.Uploads
