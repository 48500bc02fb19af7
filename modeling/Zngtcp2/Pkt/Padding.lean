import Zngtcp2.Pkt.Assembly

namespace Zngtcp2.Pkt

/-- The sample for header protection lies in the packet, and the packet in its buffer. -/
structure Sampled (e : PktEncoder) : Prop where
  sample_le : e.pktNumOffset + 4 + Ppe.hpSamplelen ≤ e.ppe.hdlen + e.ppe.payloadlen + e.ppe.maxOverhead
  fits : e.ppe.hdlen + e.ppe.payloadlen + e.ppe.maxOverhead ≤ e.out.length

theorem TxPkt.pad_sample {t t' : TxPkt} {k len : Nat} (h : t.pad k = .ok (len, t')) :
    t'.pktNumOffset + 4 + Ppe.hpSamplelen ≤ t'.pktLen + t'.ppe.maxOverhead := by
  rw [pad] at h
  by_cases hlt : t.pktLen + t.ppe.maxOverhead < t.pktNumOffset + 4 + Ppe.hpSamplelen
  · simp only [if_pos hlt] at h
    split at h
    · cases h
    · cases h
      simp only [pktLen] at hlt ⊢
      omega
  · simp only [if_neg hlt] at h
    split at h
    · cases h
    · cases h
      simp only [pktLen] at hlt ⊢
      omega

namespace PktEncoder

theorem padTxPkt_sample {t t' : TxPkt} {p : Padding} {len : Nat} (h : padTxPkt t p = .ok (len, t')) :
    t'.pktNumOffset + 4 + Ppe.hpSamplelen ≤ t'.pktLen + t'.ppe.maxOverhead := by
  cases p with
  | size n => exact TxPkt.pad_sample h
  | dgramSize n => exact TxPkt.pad_sample h
  | dgram => exact TxPkt.pad_sample h

/-- The padding functions find the room for the sample, in whichever state the frames have left the
encoder. -/
theorem padding_sampled {maxOverhead : Nat} {h : TxHd} {e : PktEncoder} {bytes : Bytes}
    (he : Ready maxOverhead h e bytes) (p : Padding) :
    ∃ len e', e.padding p = .ok (len, e') ∧ Ready maxOverhead h e' (bytes ++ List.replicate len 0) ∧ Sampled e' := by
  obtain ⟨len, e', hpad, hready⟩ := padding_ready he p
  refine ⟨len, e', hpad, hready, ?_, ?_⟩
  · rw [padding, he.sync] at hpad
    simp only at hpad
    split at hpad
    · rename_i len' t ht
      cases hpad
      have hsample := padTxPkt_sample ht
      obtain ⟨htx, -⟩ := padOut_spec he len t
      rw [← htx] at hsample
      exact hsample
    · cases hpad
  · rw [hready.out_length]
    exact hready.fits

end PktEncoder

/-- For every buffer, overhead, header and frames, no padding function fails its assertion, and what it
leaves is long enough for header protection. -/
theorem assembled_padding {maxOverhead : Nat} {h : TxHd} {e : PktEncoder} {frs : List Frame}
    (he : Assembled maxOverhead h e frs) (p : PktEncoder.Padding) :
    ∃ len e', e.padding p = .ok (len, e') ∧ Sampled e' := by
  obtain ⟨len, e', hpad, -, hsampled⟩ := PktEncoder.padding_sampled he.ready p
  exact ⟨len, e', hpad, hsampled⟩

theorem assembled_padding_short :
    ∃ e, pingAndByte = some e ∧ ∃ len e', e.padding .dgram = .ok (len, e') ∧ Sampled e' := by
  obtain ⟨e, he⟩ := Option.isSome_iff_exists.mp (show pingAndByte.isSome = true by decide +kernel)
  exact ⟨e, he, assembled_padding (pingAndByte_assembled he) .dgram⟩

end Zngtcp2.Pkt
