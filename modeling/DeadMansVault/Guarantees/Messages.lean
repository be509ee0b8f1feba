-- SUMMARY: Signed messages: what a text says can be read one way only, and both sides write it alike.
import DeadMansVault.Device.NotifyAuth

/-!
# Messages

A signature binds its owner to a text. The text determines the values that it was
built from; its first line says which of the four formats it is in; and the app
writes the text that the server rebuilds.
-/

namespace DeadMansVault

open Notify

variable {host : Host}

namespace Notify

theorem registerMessageV2_inj {f g : RegisterFieldsV2} (hf : ∀ t ∈ f.texts, Plain t)
    (hg : ∀ t ∈ g.texts, Plain t) (h : registerMessageV2 f = registerMessageV2 g) : f = g := by
  rw [registerMessageV2_eq, registerMessageV2_eq] at h
  have hkeys : ∀ k ∈ registerKeys, Plain k := by
    unfold Plain
    decide
  have htexts : f.texts = g.texts := keyed_inj (List.cons_ne_nil _ _) hkeys rfl rfl hf hg h
  simp only [RegisterFieldsV2.texts, List.cons.injEq] at htexts
  obtain ⟨-, -, hcluster, hprogramId, -, -, howner, hvault, hhash, hstage1, hstage2, hstage3,
    hrevision, htimestamp, hnonce, -⟩ := htexts
  cases f
  cases g
  simp only [RegisterFieldsV2.mk.injEq]
  exact ⟨hcluster, hprogramId, howner, hvault, hhash, toString_nat_inj hstage1,
    toString_nat_inj hstage2, toString_nat_inj hstage3, toString_nat_inj hrevision,
    toString_nat_inj htimestamp, hnonce⟩

theorem deregisterMessageV2_inj {f g : DeregisterFieldsV2} (hf : ∀ t ∈ f.texts, Plain t)
    (hg : ∀ t ∈ g.texts, Plain t) (h : deregisterMessageV2 f = deregisterMessageV2 g) : f = g := by
  rw [deregisterMessageV2_eq, deregisterMessageV2_eq] at h
  have hkeys : ∀ k ∈ deregisterKeys, Plain k := by
    unfold Plain
    decide
  have htexts : f.texts = g.texts := keyed_inj (List.cons_ne_nil _ _) hkeys rfl rfl hf hg h
  simp only [DeregisterFieldsV2.texts, List.cons.injEq] at htexts
  obtain ⟨-, -, hcluster, hprogramId, -, -, howner, hvault, htimestamp, hnonce, -⟩ := htexts
  cases f
  cases g
  simp only [DeregisterFieldsV2.mk.injEq]
  exact ⟨hcluster, hprogramId, howner, hvault, toString_nat_inj htimestamp, hnonce⟩

theorem map_ok {α β : Type} {x : Except String α} {f : α → β} {b : β}
    (h : f <$> x = .ok b) : ∃ a, x = .ok a ∧ f a = b := by
  cases x with
  | error e => cases h
  | ok a =>
      cases h
      exact ⟨a, rfl, rfl⟩

theorem buildRegisterMessageV2_inj (hhost : host.Base58) {v w : RegisterValues} {m : String}
    (hv : buildRegisterMessageV2 host v = .ok m) (hw : buildRegisterMessageV2 host w = .ok m) :
    v = w := by
  obtain ⟨f, hf, rfl⟩ := map_ok hv
  obtain ⟨g, hg, hmessage⟩ := map_ok hw
  obtain ⟨hvalues, hplain⟩ := checkRegister_ok hhost hf
  obtain ⟨hvalues', hplain'⟩ := checkRegister_ok hhost hg
  rw [hvalues, hvalues', registerMessageV2_inj hplain hplain' hmessage.symm]

theorem buildDeregisterMessageV2_inj (hhost : host.Base58) {v w : DeregisterValues} {m : String}
    (hv : buildDeregisterMessageV2 host v = .ok m)
    (hw : buildDeregisterMessageV2 host w = .ok m) : v = w := by
  obtain ⟨f, hf, rfl⟩ := map_ok hv
  obtain ⟨g, hg, hmessage⟩ := map_ok hw
  obtain ⟨hvalues, hplain⟩ := checkDeregister_ok hhost hf
  obtain ⟨hvalues', hplain'⟩ := checkDeregister_ok hhost hg
  rw [hvalues, hvalues', deregisterMessageV2_inj hplain hplain' hmessage.symm]

/-! ## Domains -/

theorem firstLine_registerMessageV2 {v : RegisterValues} {m : String}
    (h : buildRegisterMessageV2 host v = .ok m) : firstLine m = registerDomainV2.toList := by
  obtain ⟨f, -, rfl⟩ := map_ok h
  refine firstLine_lines ?_
  unfold Plain
  decide

theorem firstLine_deregisterMessageV2 {v : DeregisterValues} {m : String}
    (h : buildDeregisterMessageV2 host v = .ok m) : firstLine m = deregisterDomainV2.toList := by
  obtain ⟨f, -, rfl⟩ := map_ok h
  refine firstLine_lines ?_
  unfold Plain
  decide

theorem firstLine_registerMessage (f : RegisterFields) :
    firstLine (registerMessage f) = registerDomain.toList := by
  refine firstLine_lines ?_
  unfold Plain
  decide

theorem firstLine_deregisterMessage (f : DeregisterFields) :
    firstLine (deregisterMessage f) = deregisterDomain.toList := by
  refine firstLine_lines ?_
  unfold Plain
  decide

theorem ne_of_firstLine {m m' : String} {d d' : List Char} (h : firstLine m = d)
    (h' : firstLine m' = d') (hne : d ≠ d') : m ≠ m' := by
  rintro rfl
  exact hne (h.symm.trans h')

end Notify

/-- Over the values of any callers, with the keys read by a Base58 codec. -/
theorem signed_messages_unambiguous (hhost : host.Base58) :
    (∀ v w m, buildRegisterMessageV2 host v = .ok m → buildRegisterMessageV2 host w = .ok m →
        v = w) ∧
      (∀ v w m, buildDeregisterMessageV2 host v = .ok m →
        buildDeregisterMessageV2 host w = .ok m → v = w) ∧
      (∀ v w m m', buildRegisterMessageV2 host v = .ok m →
        buildDeregisterMessageV2 host w = .ok m' → m ≠ m') ∧
      (∀ v m, buildRegisterMessageV2 host v = .ok m →
        (∀ f, m ≠ registerMessage f) ∧ ∀ f, m ≠ deregisterMessage f) ∧
      (∀ v m, buildDeregisterMessageV2 host v = .ok m →
        (∀ f, m ≠ registerMessage f) ∧ ∀ f, m ≠ deregisterMessage f) ∧
      (∀ v, Device.NotifyAuth.registerMessageV2 host v = buildRegisterMessageV2 host v) ∧
      ∀ v, Device.NotifyAuth.deregisterMessageV2 host v = buildDeregisterMessageV2 host v := by
  refine ⟨fun v w m => buildRegisterMessageV2_inj hhost,
    fun v w m => buildDeregisterMessageV2_inj hhost, fun v w m m' hv hw => ?_,
    fun v m hv => ⟨fun f => ?_, fun f => ?_⟩, fun v m hv => ⟨fun f => ?_, fun f => ?_⟩,
    Device.NotifyAuth.registerMessageV2_eq hhost, Device.NotifyAuth.deregisterMessageV2_eq hhost⟩
  · exact ne_of_firstLine (firstLine_registerMessageV2 hv) (firstLine_deregisterMessageV2 hw)
      (by decide)
  · exact ne_of_firstLine (firstLine_registerMessageV2 hv) (firstLine_registerMessage f) (by decide)
  · exact ne_of_firstLine (firstLine_registerMessageV2 hv) (firstLine_deregisterMessage f)
      (by decide)
  · exact ne_of_firstLine (firstLine_deregisterMessageV2 hv) (firstLine_registerMessage f)
      (by decide)
  · exact ne_of_firstLine (firstLine_deregisterMessageV2 hv) (firstLine_deregisterMessage f)
      (by decide)

/-! A host that knows one key, of zeros. -/

def zeroKey : String := "11111111111111111111111111111111"

def zeroKeyHost : Host where
  isPubkey k := Json.isText (some k) zeroKey
  canonicalPubkey k := k = zeroKey
  number _ := none
  sha256Hex _ := ""
  findVaultPda _ _ := none
  bs58Decode _ := none
  bs58Encode _ := ""
  verifyEd25519 _ _ _ := false
  bindText _ := none

theorem zeroKeyHost_base58 : zeroKeyHost.Base58 where
  isPubkey k hk := hk
  chars k hk := by
    obtain rfl : k = zeroKey := of_decide_eq_true hk
    decide

def zeroKeyFields : DeregisterFieldsV2 where
  cluster := "devnet"
  programId := zeroKey
  owner := zeroKey
  vault := zeroKey
  timestamp := 7
  nonce := zeroKey

theorem zeroKeyFields_accepted :
    buildDeregisterMessageV2 zeroKeyHost zeroKeyFields.values =
      .ok (deregisterMessageV2 zeroKeyFields) := by
  have hcheck : checkDeregister zeroKeyHost zeroKeyFields.values = .ok zeroKeyFields := by rfl
  rw [buildDeregisterMessageV2, hcheck]
  rfl

theorem signed_messages_unambiguous_sample :
    Device.NotifyAuth.deregisterMessageV2 zeroKeyHost zeroKeyFields.values =
        .ok (deregisterMessageV2 zeroKeyFields) ∧
      ∀ f, deregisterMessageV2 zeroKeyFields ≠ registerMessage f := by
  obtain ⟨-, -, -, -, hfirst, -, happ⟩ := signed_messages_unambiguous zeroKeyHost_base58
  exact ⟨(happ _).trans zeroKeyFields_accepted, (hfirst _ _ zeroKeyFields_accepted).1⟩

end DeadMansVault

