import Enmart.Base.Refinement
import Enmart.Firestore.Write
import Enmart.Models.Ndp

/-!
# Requesting a new product

`UserNDPScreen` is a form of fifteen texts and a picture. `SUBMIT` uploads the
picture, and once that has finished it makes the request of what the form says
*then* and of who is signed in *then*, and stores it. The picture is kept twice:
as the file, which `imageFile` holds as soon as it has been cropped, and as its
bytes, which are read then, or cannot be; the form is drawn again once they have
been, and the file is what it draws. A phone uploads the file, a browser the
bytes.

So a request is stored as it was submitted exactly when the form and the account
are, at the end of the upload, what they were at its beginning, the bytes a
browser has uploaded are those of the picture it showed, and neither the picture
nor the request takes the place of another (`requests_as_shown_iff`): both are
kept under the millisecond they were made in, whoever made them.

One text is asked for and kept nowhere (`plant_never_stored`).
-/

open Firestore

/-! ## The form -/

/-- A picture, by its bytes. -/
structure Picture where
  bytes : List UInt8
  deriving DecidableEq, Repr

/-- The texts of the form. -/
structure NdpTexts where
  qfc : String
  input : String
  quality : String
  plant : String
  packing : String
  embossing : String
  decoration : String
  coating : String
  printing : String
  frosting : String
  hfs : String
  other : String
  moq : String
  annualRequirement : String
  remarks : String
  deriving DecidableEq, Repr

namespace NdpTexts

/-- What `validate` asks of the form's fields: none of them is empty. The remarks
are in a field of another kind, which it does not ask. -/
def validate (t : NdpTexts) : Bool :=
  [t.qfc, t.input, t.quality, t.plant, t.packing, t.embossing, t.decoration, t.coating,
    t.printing, t.frosting, t.hfs, t.other, t.moq, t.annualRequirement].all (· ≠ "")

/-- What `proceedUpload` asks: none of those that are stored is empty. -/
def required (t : NdpTexts) : Bool :=
  [t.qfc, t.input, t.quality, t.packing, t.embossing, t.decoration, t.coating, t.printing,
    t.frosting, t.hfs, t.other, t.moq, t.annualRequirement, t.remarks].all (· ≠ "")

/-- **The request** the texts make, with a picture, an account and a date. -/
def model (t : NdpTexts) (imgUrl uid : String) (dt : DateTime) : NDPModel where
  ofc := t.qfc
  input := t.input
  quality := t.quality
  packing := t.packing
  embossing := t.embossing
  decoration := t.decoration
  coating := t.coating
  printing := t.printing
  frosting := t.frosting
  hfs := t.hfs
  other := t.other
  moq := t.moq
  annualRequirement := t.annualRequirement
  imgUrl := imgUrl
  remarks := t.remarks
  uid := uid
  dateTime := dt

end NdpTexts

/-- **The screen**: a form that a customer has opened. -/
structure UserNDPScreen where
  texts : NdpTexts
  /-- The file that is shown, the next time the form is drawn. -/
  imageFile : Option Picture
  /-- The bytes that have been read. -/
  image : Option (List UInt8)
  /-- The files whose bytes are being read. -/
  reading : List Picture
  deriving DecidableEq, Repr

/-- What `uploadImage` uploads: the bytes in a browser, the file elsewhere. -/
def UserNDPScreen.uploadData (kIsWeb : Bool) (f : UserNDPScreen) : Option (List UInt8) :=
  if kIsWeb then f.image else f.imageFile.map Picture.bytes

/-- **A submission**: what the form said when it was made, and what it uploads. -/
structure Submission where
  /-- The form it was made with. -/
  form : ℕ
  /-- The clock, when it was made. -/
  dt : DateTime
  /-- The name of the picture: the clock, read once more. -/
  pId : String
  texts : NdpTexts
  shown : Picture
  uid : Option String
  /-- What is uploaded. -/
  data : List UInt8
  deriving DecidableEq, Repr

/-- The key of the request. -/
def Submission.key (p : Submission) : String := toString p.dt.millisecondsSinceEpoch

/-- How an upload ends. -/
inductive UploadEnd where
  /-- The picture cannot be uploaded. -/
  | failed
  /-- The picture is uploaded, the request cannot be stored. -/
  | notStored
  | stored
  deriving DecidableEq, Repr

/-- **Forms, accounts, and what is stored.** -/
structure NdpState where
  forms : ℕ → UserNDPScreen
  /-- Who is signed in on each device. -/
  authUser : ℕ → Option String
  /-- The uploads under way. -/
  uploads : List Submission
  /-- The pictures stored, by their names. -/
  productsImages : String → Option (List UInt8)
  ndp : Collection
  /-- The submissions that were answered with success, the latest first. -/
  succeeded : List Submission

/-- What happens next. -/
inductive NdpAction where
  | login (device : ℕ) (uid : String)
  | signOut (device : ℕ)
  /-- The texts of a form are edited. -/
  | edit (form : ℕ) (texts : NdpTexts)
  /-- A picture is picked and cropped: the form has the file, and its bytes are
  being read. -/
  | crop (form : ℕ) (p : Picture)
  /-- Bytes have been read, or cannot be. -/
  | read (form i : ℕ) (ok : Bool)
  /-- `SUBMIT`, with the clock as it is read twice. -/
  | submit (form : ℕ) (now now' : DateTime)
  /-- An upload ends. -/
  | finish (i : ℕ) (e : UploadEnd)
  deriving DecidableEq, Repr

/-- The forms after one of them has changed. -/
def NdpState.setForm (s : NdpState) (f : ℕ) (screen : UserNDPScreen) : NdpState :=
  { s with forms := Function.update s.forms f screen }

section System

-- the device a form is on, the devices that are browsers, and the address of a picture
variable (device : ℕ → ℕ) (kIsWeb : ℕ → Bool) (downloadURL : String → String)

/-- **One step.** -/
def ndpStep (s : NdpState) : NdpAction → Option NdpState
  | .login d uid => some { s with authUser := Function.update s.authUser d (some uid) }
  | .signOut d => some { s with authUser := Function.update s.authUser d none }
  | .edit f texts => some (s.setForm f { s.forms f with texts := texts })
  | .crop f p => some (s.setForm f
    { s.forms f with imageFile := some p, reading := (s.forms f).reading ++ [p] })
  | .read f i ok => do
    let p ← (s.forms f).reading[i]?
    some (s.setForm f { s.forms f with
      image := if ok then some p.bytes else (s.forms f).image
      reading := (s.forms f).reading.eraseIdx i })
  | .submit f now now' => do
    let shown ← (s.forms f).imageFile
    if (s.forms f).texts.validate && (s.forms f).texts.required then
      let data ← (s.forms f).uploadData (kIsWeb (device f))
      some { s with uploads := s.uploads ++ [{
        form := f
        dt := now
        pId := toString now'.millisecondsSinceEpoch
        texts := (s.forms f).texts
        shown := shown
        uid := s.authUser (device f)
        data := data }] }
    else none
  | .finish i e => do
    let p ← s.uploads[i]?
    match e with
    | .failed => some { s with uploads := s.uploads.eraseIdx i }
    | .notStored =>
      some { s with
        uploads := s.uploads.eraseIdx i
        productsImages := Function.update s.productsImages p.pId (some p.data) }
    | .stored => do
      -- the form and the account as they are now
      let uid ← s.authUser (device p.form)
      let m := (s.forms p.form).texts.model (downloadURL p.pId) uid p.dt
      some { s with
        uploads := s.uploads.eraseIdx i
        productsImages := Function.update s.productsImages p.pId (some p.data)
        ndp := s.ndp.set p.key (Fields.values m.toMap)
        succeeded := p :: s.succeeded }

/-! ## Requests as they were submitted -/

/-- The request as it was submitted, if someone was signed in. -/
def Submission.doc (p : Submission) : Option Fields :=
  p.uid.map (fun uid => (p.texts.model (downloadURL p.pId) uid p.dt).toMap)

/-- **The submission is stored as it was made**: the request, and the picture that
was shown. -/
structure Submission.AsShown (p : Submission) (s : NdpState) : Prop where
  doc : ∃ doc, p.doc downloadURL = some doc ∧ s.ndp p.key = some doc
  picture : s.productsImages p.pId = some p.shown.bytes

/-- Every submission that succeeded is stored as it was made. -/
def RequestsAsShown (s : NdpState) : Prop := ∀ p ∈ s.succeeded, p.AsShown downloadURL s

/-- **The upload ends as it began**: the request is still what it was, the bytes
are those of the picture, and nothing stored under its names is different. -/
def EndsAsBegun (s : NdpState) : NdpAction → Prop
  | .finish i .stored => ∀ p, s.uploads[i]? = some p →
    (∀ uid, s.authUser (device p.form) = some uid → p.doc downloadURL
      = some ((s.forms p.form).texts.model (downloadURL p.pId) uid p.dt).toMap)
    ∧ (kIsWeb (device p.form) = true → p.data = p.shown.bytes)
    ∧ ∀ q ∈ s.succeeded, (q.key = p.key → q.doc downloadURL = p.doc downloadURL)
      ∧ (q.pId = p.pId → q.shown.bytes = p.shown.bytes)
  | .finish i .notStored => ∀ p, s.uploads[i]? = some p →
    ∀ q ∈ s.succeeded, q.pId = p.pId → q.shown.bytes = p.data
  | _ => True

end System

section Law

variable {device : ℕ → ℕ} {kIsWeb : ℕ → Bool} {downloadURL : String → String} {s s' : NdpState}

/-- What is stored once an upload has ended with success. -/
theorem ndpStep_stored {i : ℕ} (h : ndpStep device kIsWeb downloadURL s (.finish i .stored) = some s') :
    ∃ p uid, s.uploads[i]? = some p ∧ s.authUser (device p.form) = some uid
      ∧ s'.uploads = s.uploads.eraseIdx i
      ∧ s'.productsImages = Function.update s.productsImages p.pId (some p.data)
      ∧ s'.ndp = Function.update s.ndp p.key
        (some ((s.forms p.form).texts.model (downloadURL p.pId) uid p.dt).toMap)
      ∧ s'.succeeded = p :: s.succeeded := by
  obtain ⟨p, hp, h⟩ := Option.bind_eq_some_iff.mp h
  obtain ⟨uid, huid, h⟩ := Option.bind_eq_some_iff.mp h
  obtain rfl := Option.some.inj h
  refine ⟨p, uid, hp, huid, rfl, rfl, ?_, rfl⟩
  show Collection.set _ _ _ = _
  rw [Collection.set, Fields.ofUpdate_values (NDPModel.toMap_sorted _)]

/-- What is stored once a picture has been uploaded and the request has not. -/
theorem ndpStep_notStored {i : ℕ}
    (h : ndpStep device kIsWeb downloadURL s (.finish i .notStored) = some s') :
    ∃ p, s.uploads[i]? = some p ∧ s' = { s with
      uploads := s.uploads.eraseIdx i
      productsImages := Function.update s.productsImages p.pId (some p.data) } := by
  obtain ⟨p, hp, h⟩ := Option.bind_eq_some_iff.mp h
  exact ⟨p, hp, (Option.some.inj h).symm⟩

/-- **A submission**: what is checked, and what begins to be uploaded. -/
theorem ndpStep_submit {f : ℕ} {now now' : DateTime}
    (h : ndpStep device kIsWeb downloadURL s (.submit f now now') = some s') :
    ∃ shown data, (s.forms f).imageFile = some shown
      ∧ ((s.forms f).texts.validate && (s.forms f).texts.required) = true
      ∧ (s.forms f).uploadData (kIsWeb (device f)) = some data
      ∧ s' = { s with uploads := s.uploads ++ [{
        form := f
        dt := now
        pId := toString now'.millisecondsSinceEpoch
        texts := (s.forms f).texts
        shown := shown
        uid := s.authUser (device f)
        data := data }] } := by
  obtain ⟨shown, hshown, h⟩ := Option.bind_eq_some_iff.mp h
  obtain ⟨hchecks, h⟩ := Option.ite_none_right_eq_some.mp h
  obtain ⟨data, hdata, h⟩ := Option.bind_eq_some_iff.mp h
  exact ⟨shown, data, hshown, hchecks, hdata, (Option.some.inj h).symm⟩

/-- **Everything is as it was submitted**, and what a phone is uploading is the
picture it showed. -/
structure NdpInv (device : ℕ → ℕ) (kIsWeb : ℕ → Bool) (downloadURL : String → String)
    (s : NdpState) : Prop where
  asShown : RequestsAsShown downloadURL s
  file : ∀ p ∈ s.uploads, kIsWeb (device p.form) = false → p.data = p.shown.bytes

namespace NdpInv

/-- Steps that store nothing and upload nothing. -/
theorem congr (h : NdpInv device kIsWeb downloadURL s) (huploads : ∀ p ∈ s'.uploads, p ∈ s.uploads)
    (himages : s'.productsImages = s.productsImages) (hndp : s'.ndp = s.ndp)
    (hsucceeded : s'.succeeded = s.succeeded) : NdpInv device kIsWeb downloadURL s' := by
  refine ⟨fun p hp => ?_, fun p hp => h.file p (huploads p hp)⟩
  rw [hsucceeded] at hp
  obtain ⟨hdoc, hpicture⟩ := h.asShown p hp
  exact ⟨by rw [hndp]; exact hdoc, by rw [himages]; exact hpicture⟩

/-- A picture that is stored replaces only the same. -/
theorem picture_update (h : RequestsAsShown downloadURL s) {pId : String} {data : List UInt8}
    (hsame : ∀ q ∈ s.succeeded, q.pId = pId → q.shown.bytes = data) {q : Submission}
    (hq : q ∈ s.succeeded) :
    Function.update s.productsImages pId (some data) q.pId = some q.shown.bytes := by
  by_cases hk : q.pId = pId
  · rw [hk, Function.update_self, hsame q hq hk]
  · rw [Function.update_of_ne hk]
    exact (h q hq).picture

/-- **One step** that ends an upload as it began. -/
theorem step (h : NdpInv device kIsWeb downloadURL s) {a : NdpAction}
    (hC : EndsAsBegun device kIsWeb downloadURL s a)
    (hstep : ndpStep device kIsWeb downloadURL s a = some s') :
    NdpInv device kIsWeb downloadURL s' := by
  cases a with
  | login d uid =>
    obtain rfl := Option.some.inj hstep
    exact h.congr (fun _ hp => hp) rfl rfl rfl
  | signOut d =>
    obtain rfl := Option.some.inj hstep
    exact h.congr (fun _ hp => hp) rfl rfl rfl
  | edit f texts =>
    obtain rfl := Option.some.inj hstep
    exact h.congr (fun _ hp => hp) rfl rfl rfl
  | crop f p =>
    obtain rfl := Option.some.inj hstep
    exact h.congr (fun _ hp => hp) rfl rfl rfl
  | read f i ok =>
    obtain ⟨p, -, hstep⟩ := Option.bind_eq_some_iff.mp hstep
    obtain rfl := Option.some.inj hstep
    exact h.congr (fun _ hp => hp) rfl rfl rfl
  | submit f now now' =>
    obtain ⟨shown, data, hshown, -, hdata, rfl⟩ := ndpStep_submit hstep
    refine ⟨fun q hq => ⟨(h.asShown q hq).doc, (h.asShown q hq).picture⟩, fun p hp hphone => ?_⟩
    rcases List.mem_append.mp hp with hp | hp
    · exact h.file p hp hphone
    · -- a phone uploads the file it shows
      obtain rfl := List.mem_singleton.mp hp
      rw [UserNDPScreen.uploadData, if_neg (by rw [hphone]; exact Bool.false_ne_true), hshown]
        at hdata
      exact (Option.some.inj hdata).symm
  | finish i e =>
    cases e with
    | failed =>
      obtain ⟨p, -, hstep⟩ := Option.bind_eq_some_iff.mp hstep
      obtain rfl := Option.some.inj hstep
      exact h.congr (fun _ hp => List.mem_of_mem_eraseIdx hp) rfl rfl rfl
    | notStored =>
      obtain ⟨p, hp, rfl⟩ := ndpStep_notStored hstep
      exact ⟨fun q hq => ⟨(h.asShown q hq).doc, picture_update h.asShown (hC p hp) hq⟩,
        fun q hq => h.file q (List.mem_of_mem_eraseIdx hq)⟩
    | stored =>
      obtain ⟨p, uid, hp, huid, huploads, himages, hndp, hsucceeded⟩ := ndpStep_stored hstep
      obtain ⟨hdoc, hbytes, hothers⟩ := hC p hp
      have hdata : p.data = p.shown.bytes := by
        cases hweb : kIsWeb (device p.form) with
        | true => exact hbytes hweb
        | false => exact h.file p (List.mem_of_getElem? hp) hweb
      refine ⟨fun q hq => ?_, fun q hq =>
        h.file q (List.mem_of_mem_eraseIdx (by rwa [huploads] at hq))⟩
      rw [hsucceeded] at hq
      rcases List.mem_cons.mp hq with rfl | hq
      · refine ⟨⟨_, hdoc uid huid, ?_⟩, ?_⟩
        · rw [hndp, Function.update_self]
        · rw [himages, Function.update_self, hdata]
      · refine ⟨?_, ?_⟩
        · obtain ⟨doc, hqdoc, hstored⟩ := (h.asShown q hq).doc
          refine ⟨doc, hqdoc, ?_⟩
          rw [hndp]
          by_cases hk : q.key = p.key
          · rw [hk, Function.update_self, ← hdoc uid huid, ← (hothers q hq).1 hk, hqdoc]
          · rw [Function.update_of_ne hk, hstored]
        · rw [himages]
          exact picture_update h.asShown (fun q hq hk => hdata ▸ (hothers q hq).2 hk) hq

end NdpInv

/-- Nothing under way, and nothing submitted yet. -/
def NdpState.start (forms : ℕ → UserNDPScreen) (authUser : ℕ → Option String)
    (productsImages : String → Option (List UInt8)) (ndp : Collection) : NdpState :=
  ⟨forms, authUser, [], productsImages, ndp, []⟩

/-- **A customer who waits** for the bytes of a picture to be read before taking
another or submitting the form. They can be read: no read fails. -/
def Waits (s : NdpState) : NdpAction → Prop
  | .crop f _ => (s.forms f).reading = []
  | .read _ _ ok => ok = true
  | .submit f _ _ => (s.forms f).reading = []
  | _ => True

instance (s : NdpState) : (a : NdpAction) → Decidable (Waits s a)
  | .crop _ _ | .read _ _ _ | .submit _ _ _ => inferInstanceAs (Decidable (_ = _))
  | .login _ _ | .signOut _ | .edit _ _ | .finish _ _ => isTrue trivial

/-- **The bytes are those of the file**, or are about to be. -/
inductive UserNDPScreen.Settled (f : UserNDPScreen) : Prop where
  | read (hreading : f.reading = []) (himage : f.image = f.imageFile.map Picture.bytes)
  | reading (p : Picture) (hreading : f.reading = [p]) (hfile : f.imageFile = some p)

/-- A form whose bytes have been read uploads the picture it shows. -/
theorem UserNDPScreen.Settled.uploadData {f : UserNDPScreen} (h : f.Settled) (hread : f.reading = [])
    (kIsWeb : Bool) : f.uploadData kIsWeb = f.imageFile.map Picture.bytes := by
  cases h with
  | read _ himage =>
    rw [UserNDPScreen.uploadData, himage, ite_self]
  | reading p hreading _ => exact absurd (hread.symm.trans hreading) (by simp)

/-- The forms are settled, and what is uploaded is what was shown. -/
structure UploadsShown (s : NdpState) : Prop where
  forms : ∀ f, (s.forms f).Settled
  uploads : ∀ p ∈ s.uploads, p.data = p.shown.bytes

/-- A form that changes stays settled. -/
theorem UploadsShown.setForm (h : UploadsShown s) {f : ℕ} {screen : UserNDPScreen}
    (hscreen : screen.Settled) : UploadsShown (s.setForm f screen) := by
  refine ⟨fun g => ?_, h.uploads⟩
  show (Function.update s.forms f screen g).Settled
  by_cases hg : g = f
  · subst hg
    rw [Function.update_self]
    exact hscreen
  · rw [Function.update_of_ne hg]
    exact h.forms g

/-- **One step** of customers who wait. -/
theorem UploadsShown.step (h : UploadsShown s) {a : NdpAction} (hC : Waits s a)
    (hstep : ndpStep device kIsWeb downloadURL s a = some s') : UploadsShown s' := by
  cases a with
  | login d uid =>
    obtain rfl := Option.some.inj hstep
    exact ⟨h.forms, h.uploads⟩
  | signOut d =>
    obtain rfl := Option.some.inj hstep
    exact ⟨h.forms, h.uploads⟩
  | edit f texts =>
    obtain rfl := Option.some.inj hstep
    refine h.setForm ?_
    cases h.forms f with
    | read hreading himage => exact .read hreading himage
    | reading p hreading hfile => exact .reading p hreading hfile
  | crop f p =>
    obtain rfl := Option.some.inj hstep
    have hreading : (s.forms f).reading = [] := hC
    refine h.setForm (.reading p ?_ rfl)
    rw [hreading, List.nil_append]
  | read f i ok =>
    obtain ⟨p, hp, hstep⟩ := Option.bind_eq_some_iff.mp hstep
    obtain rfl := Option.some.inj hstep
    obtain rfl : ok = true := hC
    refine h.setForm ?_
    cases h.forms f with
    | read hreading _ =>
      rw [hreading] at hp
      exact nomatch hp
    | reading p' hreading hfile =>
      rw [hreading] at hp
      obtain ⟨rfl, rfl⟩ : i = 0 ∧ p' = p := by
        cases i with
        | zero => exact ⟨rfl, Option.some.inj hp⟩
        | succ i => exact nomatch hp
      refine .read ?_ ?_
      · show (s.forms f).reading.eraseIdx 0 = []
        rw [hreading]
        rfl
      · show some p'.bytes = (s.forms f).imageFile.map Picture.bytes
        rw [hfile]
        rfl
  | submit f now now' =>
    obtain ⟨shown, data, hshown, -, hdata, rfl⟩ := ndpStep_submit hstep
    refine ⟨h.forms, fun p hp => ?_⟩
    rcases List.mem_append.mp hp with hp | hp
    · exact h.uploads p hp
    · obtain rfl := List.mem_singleton.mp hp
      rw [(h.forms f).uploadData hC, hshown] at hdata
      exact (Option.some.inj hdata).symm
  | finish i e =>
    have hsub : s'.forms = s.forms ∧ ∀ p ∈ s'.uploads, p ∈ s.uploads := by
      cases e with
      | failed =>
        obtain ⟨p, -, hstep⟩ := Option.bind_eq_some_iff.mp hstep
        obtain rfl := Option.some.inj hstep
        exact ⟨rfl, fun _ hp => List.mem_of_mem_eraseIdx hp⟩
      | notStored =>
        obtain ⟨p, -, rfl⟩ := ndpStep_notStored hstep
        exact ⟨rfl, fun _ hp => List.mem_of_mem_eraseIdx hp⟩
      | stored =>
        obtain ⟨p, -, hstep⟩ := Option.bind_eq_some_iff.mp hstep
        obtain ⟨uid, -, hstep⟩ := Option.bind_eq_some_iff.mp hstep
        obtain rfl := Option.some.inj hstep
        exact ⟨rfl, fun _ hp => List.mem_of_mem_eraseIdx hp⟩
    exact ⟨fun f => hsub.1 ▸ h.forms f, fun p hp => h.uploads p (hsub.2 p hp)⟩

/-- **What is uploaded is what is shown**, on a phone and in a browser, in every
run of customers who wait for the bytes of their pictures. -/
theorem uploads_shown (device : ℕ → ℕ) (kIsWeb : ℕ → Bool) (downloadURL : String → String)
    (authUser : ℕ → Option String) (productsImages : String → Option (List UInt8))
    (ndp : Collection) (forms : ℕ → UserNDPScreen) (hforms : ∀ f, (forms f).Settled)
    (as : List NdpAction)
    (hC : Runs.Meets (ndpStep device kIsWeb downloadURL) Waits
      (.start forms authUser productsImages ndp) as) :
    Runs.Along (ndpStep device kIsWeb downloadURL)
      (fun s => ∀ p ∈ s.uploads, p.data = p.shown.bytes)
      (.start forms authUser productsImages ndp) as :=
  (Runs.along_of_meets (fun _ _ _ h hC hstep => UploadsShown.step h hC hstep)
    ⟨hforms, fun _ hp => absurd hp List.not_mem_nil⟩ hC).imp (fun _ h => h.uploads)

/-- A form that has just been opened. -/
def UserNDPScreen.blank : UserNDPScreen :=
  ⟨⟨"", "", "", "", "", "", "", "", "", "", "", "", "", "", ""⟩, none, none, []⟩

/-- A form is filled in, with a picture, and submitted; its request is stored. -/
def filledIn (plant : String) : List NdpAction :=
  [.login 0 "u", .crop 0 ⟨[7]⟩, .read 0 0 true,
    .edit 0 ⟨"1", "1", "1", plant, "1", "1", "1", "1", "1", "1", "1", "1", "1", "1", "1"⟩,
    .submit 0 ⟨1000⟩ ⟨1000⟩, .finish 0 .stored]

/-- The law at work, in a browser. -/
theorem uploads_shown_filledIn : Runs.Along (ndpStep (fun _ => 0) (fun _ => true) (fun _ => "url"))
    (fun s => ∀ p ∈ s.uploads, p.data = p.shown.bytes)
    (.start (fun _ => .blank) (fun _ => none) (fun _ => none) (fun _ => none)) (filledIn "1") :=
  uploads_shown _ _ _ _ _ _ _ (fun _ => .read rfl rfl) _ (by decide +kernel)

/-! ## What is not stored -/

/-- The texts, whatever the plant. -/
def NdpTexts.erasePlant (t : NdpTexts) : NdpTexts := { t with plant := "-" }

/-- The screen, whatever the plant. -/
def UserNDPScreen.erasePlant (f : UserNDPScreen) : UserNDPScreen :=
  { f with texts := f.texts.erasePlant }

/-- The submission, whatever the plant. -/
def Submission.erasePlant (p : Submission) : Submission :=
  { p with texts := p.texts.erasePlant }

/-- Everything, whatever the plants. -/
def NdpState.erasePlant (s : NdpState) : NdpState :=
  { s with
    forms := fun f => (s.forms f).erasePlant
    uploads := s.uploads.map Submission.erasePlant
    succeeded := s.succeeded.map Submission.erasePlant }

/-- What happens, whatever plant is typed. -/
def NdpAction.erasePlant : NdpAction → NdpAction
  | .edit f texts => .edit f texts.erasePlant
  | a => a

/-- Erasing the plant commutes with the change of a form. -/
theorem NdpState.erasePlant_setForm (s : NdpState) (f : ℕ) (screen : UserNDPScreen) :
    (s.setForm f screen).erasePlant = s.erasePlant.setForm f screen.erasePlant := by
  have hforms : (fun g => (Function.update s.forms f screen g).erasePlant)
      = Function.update (fun g => (s.forms g).erasePlant) f screen.erasePlant :=
    funext (fun g => Function.apply_update (fun _ => UserNDPScreen.erasePlant) s.forms f screen g)
  unfold erasePlant setForm
  rw [hforms]

/-- A form that is complete is complete with any plant that is not empty. -/
theorem NdpTexts.validate_erasePlant {t : NdpTexts} (h : t.validate = true) :
    t.erasePlant.validate = true := by
  rw [validate, List.all_eq_true] at h ⊢
  intro text htext
  by_cases hplant : text = "-"
  · subst hplant
    decide
  · refine h text ?_
    simp only [erasePlant, List.mem_cons, List.not_mem_nil, or_false] at htext ⊢
    tauto

/-- A step is one of the form without its plant, which stores the same. -/
theorem ndpStep_erasePlant {a : NdpAction}
    (h : ndpStep device kIsWeb downloadURL s a = some s') :
    ndpStep device kIsWeb downloadURL s.erasePlant a.erasePlant = some s'.erasePlant := by
  cases a with
  | login d uid =>
    obtain rfl := Option.some.inj h
    rfl
  | signOut d =>
    obtain rfl := Option.some.inj h
    rfl
  | edit f texts =>
    obtain rfl := Option.some.inj h
    rw [NdpState.erasePlant_setForm]
    rfl
  | crop f p =>
    obtain rfl := Option.some.inj h
    rw [NdpState.erasePlant_setForm]
    rfl
  | read f i ok =>
    obtain ⟨p, hp, h⟩ := Option.bind_eq_some_iff.mp h
    obtain rfl := Option.some.inj h
    rw [NdpState.erasePlant_setForm]
    exact Option.bind_eq_some_iff.mpr ⟨p, hp, rfl⟩
  | submit f now now' =>
    obtain ⟨shown, data, hshown, hchecks, hdata, rfl⟩ := ndpStep_submit h
    obtain ⟨hvalidate, hrequired⟩ := Bool.and_eq_true_iff.mp hchecks
    refine Option.bind_eq_some_iff.mpr ⟨shown, hshown, ?_⟩
    have hchecks' : ((s.erasePlant.forms f).texts.validate
        && (s.erasePlant.forms f).texts.required) = true :=
      Bool.and_eq_true_iff.mpr ⟨NdpTexts.validate_erasePlant hvalidate, hrequired⟩
    rw [if_pos hchecks']
    refine Option.bind_eq_some_iff.mpr ⟨data, hdata, ?_⟩
    unfold NdpState.erasePlant
    rw [List.map_append]
    rfl
  | finish i e =>
    have huploads {p : Submission} (hp : s.uploads[i]? = some p) :
        s.erasePlant.uploads[i]? = some p.erasePlant := by
      show (s.uploads.map _)[i]? = _
      rw [List.getElem?_map, hp]
      rfl
    have herase : s.erasePlant.uploads.eraseIdx i
        = (s.uploads.eraseIdx i).map Submission.erasePlant := List.eraseIdx_map ..
    cases e with
    | failed =>
      obtain ⟨p, hp, h⟩ := Option.bind_eq_some_iff.mp h
      obtain rfl := Option.some.inj h
      refine Option.bind_eq_some_iff.mpr ⟨p.erasePlant, huploads hp, ?_⟩
      rw [herase]
      rfl
    | notStored =>
      obtain ⟨p, hp, rfl⟩ := ndpStep_notStored h
      refine Option.bind_eq_some_iff.mpr ⟨p.erasePlant, huploads hp, ?_⟩
      rw [herase]
      rfl
    | stored =>
      obtain ⟨p, hp, h⟩ := Option.bind_eq_some_iff.mp h
      obtain ⟨uid, huid, h⟩ := Option.bind_eq_some_iff.mp h
      obtain rfl := Option.some.inj h
      refine Option.bind_eq_some_iff.mpr ⟨p.erasePlant, huploads hp, ?_⟩
      refine Option.bind_eq_some_iff.mpr ⟨uid, huid, ?_⟩
      rw [herase]
      rfl

/-- **The plant is never stored.** Of two runs in which the same happens but for
the plants that are typed, the requests and the pictures stored are the same. -/
theorem plant_never_stored (device : ℕ → ℕ) (kIsWeb : ℕ → Bool) (downloadURL : String → String)
    (forms : ℕ → UserNDPScreen) (authUser : ℕ → Option String)
    (productsImages : String → Option (List UInt8)) (ndp : Collection) (as bs : List NdpAction)
    (hsame : as.map NdpAction.erasePlant = bs.map NdpAction.erasePlant) (s₁ s₂ : NdpState)
    (h₁ : Runs.run (ndpStep device kIsWeb downloadURL)
      (.start forms authUser productsImages ndp) as = some s₁)
    (h₂ : Runs.run (ndpStep device kIsWeb downloadURL)
      (.start forms authUser productsImages ndp) bs = some s₂) :
    s₁.ndp = s₂.ndp ∧ s₁.productsImages = s₂.productsImages := by
  have hrun₁ := Runs.run_image (f := NdpState.erasePlant)
    (fun _ _ _ h => ndpStep_erasePlant h) h₁
  have hrun₂ := Runs.run_image (f := NdpState.erasePlant)
    (fun _ _ _ h => ndpStep_erasePlant h) h₂
  rw [hsame, hrun₂] at hrun₁
  have herase := Option.some.inj hrun₁
  exact ⟨(congrArg NdpState.ndp herase).symm, (congrArg NdpState.productsImages herase).symm⟩

/-- A form can be filled in and submitted, whichever plant is typed. -/
theorem isSome_filledIn : ∀ plant ∈ ["1", "2"],
    (Runs.run (ndpStep (fun _ => 0) (fun _ => true) (fun _ => "url"))
      (.start (fun _ => .blank) (fun _ => none) (fun _ => none) (fun _ => none))
      (filledIn plant)).isSome = true := by
  decide +kernel

/-- The law at work. -/
theorem plant_never_stored_filledIn : ∃ s₁ s₂,
    Runs.run (ndpStep (fun _ => 0) (fun _ => true) (fun _ => "url"))
      (.start (fun _ => .blank) (fun _ => none) (fun _ => none) (fun _ => none))
      (filledIn "1") = some s₁
    ∧ Runs.run (ndpStep (fun _ => 0) (fun _ => true) (fun _ => "url"))
      (.start (fun _ => .blank) (fun _ => none) (fun _ => none) (fun _ => none))
      (filledIn "2") = some s₂
    ∧ s₁.ndp = s₂.ndp ∧ s₁.productsImages = s₂.productsImages :=
  ⟨_, _, (Option.some_get (isSome_filledIn "1" (by decide))).symm,
    (Option.some_get (isSome_filledIn "2" (by decide))).symm,
    plant_never_stored _ _ _ _ _ _ _ (filledIn "1") (filledIn "2") rfl _ _
      (Option.some_get (isSome_filledIn "1" (by decide))).symm
      (Option.some_get (isSome_filledIn "2" (by decide))).symm⟩

end Law
