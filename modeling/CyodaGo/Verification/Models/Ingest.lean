import CyodaGo.Model.Models.Service
import CyodaGo.Verification.Schema.Extension
import CyodaGo.Verification.Schema.RoundTrip

/-! # Documents that extend one model at the same time

Writers that read the same descriptor append their deltas in any order. -/

namespace CyodaGo.Models

open Schema Schema.ModelNode

variable {T D : Type} [TypeSet T] {spi : ScalarSpi D} {desc : Descriptor T} {base : ModelNode T}

/-- A document that the ingest accepts under the descriptor, with the delta it appends. -/
structure Accepted (spi : ScalarSpi D) (desc : Descriptor T) where
  doc : Doc
  delta : Option (SchemaDelta T)
  distinct : doc.Distinct
  accepted : neededExtension spi desc doc = .ok delta

theorem extend_regular {m m' : ModelNode T} {d : Doc} {level : ChangeLevel} (hm : m.All Regular)
    (hd : d.Distinct) (h : extend spi m d level = .ok m') : m'.All Regular := by
  obtain ⟨o, changes, hfinding, hall⟩ := admit_of_extend h
  have hfound := admit_found (R := True) (fun _ => hm) hd hfinding
  have hm' := Except.ok.inj (h.symm.trans (extend_of_permitted hfinding hall))
  rw [hm']
  split
  · exact hm
  cases o with
  | none => exact hm
  | some o => exact hm.regular_merge ((hfound.tree o rfl).imp fun _ h => h.regular trivial)

/-- What is appended replays above a regular base, and makes the document valid there if the SPI
parses its numbers. -/
theorem Accepted.spec (hspi : spi.Lawful T) (hbase : base.All Regular)
    (hdesc : desc.schema = some base) (w : Accepted spi desc) :
    (∀ delta, w.delta = some delta → ∀ op ∈ delta, op.Sound base) ∧
      (w.doc.NumbersParse spi → ∀ m : ModelNode T, base.shape ≤ m.shape →
        (∀ delta, w.delta = some delta → deltaShape delta ≤ m.shape) →
          validate spi m w.doc = []) := by
  obtain ⟨doc, o, hdistinct, hw⟩ := w
  simp only [neededExtension, hdesc, hbase.decodable, not_true_eq_false, if_false] at hw ⊢
  split at hw
  · split at hw
    · rename_i hvalid
      cases hw
      exact ⟨by simp, fun _ m hle _ => validate_mono hspi.enlarges hle (.refl _) hvalid⟩
    · cases hw
  · split at hw
    · cases hw
    rename_i extended hextend
    have hle := le_extend hextend
    obtain ⟨delta, hdiff, hdel⟩ := diff_delivers (extend_regular hbase hdistinct hextend) hle
    have hvalid (hparse : doc.NumbersParse spi) (m : ModelNode T) (hm : base.shape ≤ m.shape)
        (hδ : deltaShape delta ≤ m.shape) : validate spi m doc = [] := by
      refine validate_mono hspi.enlarges ?_ (.refl _)
        (extend_validates hspi hdistinct hparse hextend)
      rw [← hdel.shape_eq hle]
      exact sup_le hm hδ
    rw [hdiff] at hw
    split at hw
    · cases hw
    cases delta with
    | nil =>
      cases hw
      exact ⟨by simp, fun hparse m hm _ => hvalid hparse m hm bot_le⟩
    | cons op rest =>
      cases hw
      exact ⟨fun _ h => Option.some.inj h ▸ hdel.sound,
        fun hparse m hm hδ => hvalid hparse m hm (hδ _ rfl)⟩

/-- Deltas of documents accepted under one descriptor, whose model is regular, replay in any order
and any number of times, and the model depends only on which deltas are there. A document whose
numbers the SPI parses is valid as soon as its delta is in the log. -/
theorem accepted_documents_converge (hspi : spi.Lawful T) (base : ModelNode T)
    (hbase : base.All Regular) (hdesc : desc.schema = some base) (log : List (SchemaDelta T))
    (hlog : ∀ delta ∈ log, ∃ w : Accepted spi desc, w.delta = some delta) :
    ∃ r, log.foldlM Schema.apply base = .ok r ∧
      (∀ w : Accepted spi desc, w.doc.NumbersParse spi →
        (∀ delta, w.delta = some delta → delta ∈ log) → validate spi r w.doc = []) ∧
      ∀ log' : List (SchemaDelta T), (∀ delta, delta ∈ log' ↔ delta ∈ log) →
        ∃ r', log'.foldlM Schema.apply base = .ok r' ∧ r'.Same r := by
  have hsound : ∀ delta ∈ log, ∀ op ∈ delta, op.Sound base := by
    intro delta hdelta
    obtain ⟨w, hw⟩ := hlog delta hdelta
    exact (w.spec hspi hbase hdesc).1 delta hw
  obtain ⟨r, hr, hiff⟩ := foldlM_apply_extends hsound le_rfl hbase
  have hbelow := (hiff r.shape).mp le_rfl
  refine ⟨r, hr, fun w hparse hw => ?_, fun log' hsame => ?_⟩
  · exact (w.spec hspi hbase hdesc).2 hparse r hbelow.1 fun delta h => hbelow.2 delta (hw delta h)
  · obtain ⟨r', hr', hiff'⟩ := foldlM_apply_extends
      (fun delta h => hsound delta ((hsame delta).mp h)) le_rfl hbase
    refine ⟨r', hr', eq_of_forall_ge_iff fun f => ?_⟩
    rw [hiff, hiff']
    simp only [hsame]

open Schema.Sample in
/-- A number is written twice where the model had text. -/
theorem accepted_documents_converge_number :
    ∃ delta r, neededExtension decimals ⟨.locked, .type, some stored.1, ⟨0, []⟩⟩ numberDoc =
        .ok (some delta) ∧
      [delta, delta].foldlM Schema.apply stored.1 = .ok r ∧ validate decimals r numberDoc = [] := by
  let w : Accepted decimals ⟨.locked, .type, some stored.1, ⟨0, []⟩⟩ :=
    ⟨numberDoc, _, numberDoc_distinct, rfl⟩
  obtain ⟨delta, hdelta⟩ : ∃ delta, w.delta = some delta := ⟨_, rfl⟩
  obtain ⟨r, hr, hvalid, -⟩ := accepted_documents_converge decimals_lawful stored.1 stored.2 rfl
    [delta, delta] (by simpa using ⟨w, hdelta⟩)
  exact ⟨delta, r, hdelta ▸ w.accepted, hr, hvalid w numberDoc_numbersParse (by simp [hdelta])⟩

end CyodaGo.Models
