import CommonCommunicator.Communicator.UdpDelivery

/-!
# UDP between the processes of a document

Processes that load one document and start a UDP provider of it each. Their address tables have all
of them under the paths of the document, so that what one of them sends to the path of another gets
there, under the path of the sender.
-/

namespace CommonCommunicator

open Lib

variable {Address : Type} {family : AddressFamily Address} {resources : AppForest}
  {document : Json} {type : ProviderType} {Node : Type} {sends : Address → Address → Bool}

/-- Only a port 0 is replaced by a random one. -/
def AddressFamily.FixedPorts (family : AddressFamily Address) : Prop :=
  ∀ ip port random random', port ≠ 0 →
    family.setIpPort ip port random = family.setIpPort ip port random'

theorem AddressFamily.fixedPorts_uds (inetAddr : Bytes → UInt32) : (uds inetAddr).FixedPorts := by
  intro ip port random random' hport
  have hsame : CinetUds.setIpPort afUnix ip port .server random =
      CinetUds.setIpPort afUnix ip port .server random' := by
    simp only [CinetUds.setIpPort, if_neg hport]
  simp only [uds]
  split <;> split <;> simp_all

/-- The address that one process makes for a provider with a port is the one that every process
makes for it. -/
theorem mem_zip_of_made {randoms randoms' : Bytes → RandomNumbers} {provider : Bytes × PvdLeaf}
    {providers : List (Bytes × PvdLeaf)} {addresses addresses' : List Address} {addr : Address}
    (hfixed : family.FixedPorts)
    (hport : ∀ pvdAlias, provider.2.data = .trans pvdAlias → pvdAlias.portNum % 2 ^ 16 ≠ 0)
    (hmade : List.Forall₂ (AddressFor family randoms) providers addresses)
    (hmade' : List.Forall₂ (AddressFor family randoms') providers addresses')
    (hmem : (provider, addr) ∈ providers.zip addresses') :
    (provider, addr) ∈ providers.zip addresses := by
  induction hmade generalizing addresses' with
  | nil => cases hmem
  | @cons first made providers addresses hfirst _ ih =>
      cases hmade' with
      | @cons _ made' _ addresses' hfirst' hrest' =>
          rw [List.zip_cons_cons, List.mem_cons] at hmem ⊢
          obtain heq | hrest := hmem
          · left
            obtain ⟨rfl, rfl⟩ := Prod.mk.inj heq
            obtain ⟨pvdAlias, hdata, hmade⟩ := hfirst
            obtain ⟨pvdAlias', hdata', hmade'⟩ := hfirst'
            obtain rfl : pvdAlias = pvdAlias' := by
              rw [hdata] at hdata'
              exact PvdData.trans.inj hdata'
            rw [hfixed _ _ _ (randoms' (fullPath provider)) (hport pvdAlias hdata), hmade']
              at hmade
            rw [Except.ok.inj hmade]
          · exact .inr (ih hrest' hrest)

/-- Processes that have loaded a document and started a provider of a type each. Their sockets are
bound to the addresses that the document has for the providers, with ports of their own, and what
they send comes from there. -/
structure DescribedProcesses (resources : AppForest) (document : Json)
    (family : AddressFamily Address) (sends : Address → Address → Bool) (type : ProviderType)
    (Node : Type) where
  described : resources.DescribedBy document
  named : resources.WellNamed
  chains : ∀ entry ∈ resources.entries, entry.2.chain ≠ none
  heap : Node → AliasHeap
  tree : Node → AliasTree
  loaded : ∀ n, AliasTree.construct (heap n) (some document) = .ok (tree n)
  randoms : Node → Bytes → RandomNumbers
  addresses : Node → List Address
  made : ∀ n,
    List.Forall₂ (AddressFor family (randoms n)) (resources.providersOf type) (addresses n)
  selfAlias : Node → AliasRef
  self : ∀ n, selfAlias n ∈ (tree n).config.mmPvds type
  single : ∀ n n', (tree n).view (selfAlias n) = (tree n').view (selfAlias n') → n = n'
  table : Node → PeerTable Address
  starts : ∀ n, (tree n).startProvider family (randoms n) (selfAlias n) = .ok (table n)
  address : Node → Address
  bound : ∀ n, ((tree n).view (selfAlias n), address n) ∈
    (resources.providersOf type).zip (addresses n)
  ports : ∀ n pvdAlias, ((tree n).view (selfAlias n)).2.data = .trans pvdAlias →
    pvdAlias.portNum % 2 ^ 16 ≠ 0
  sources : ∀ n source, sends (address n) source = true ↔ source = address n
  comparable : ∀ n, family.comparable (address n)

namespace DescribedProcesses

/-- The provider of a process. -/
def provider (p : DescribedProcesses resources document family sends type Node) (n : Node) :
    Bytes × PvdLeaf := (p.tree n).view (p.selfAlias n)

theorem loads (p : DescribedProcesses resources document family sends type Node) (n : Node) :
    resources.Starts family (p.randoms n) type (p.tree n) (p.addresses n) :=
  p.described.starts p.named p.chains (p.loaded n) (p.made n)

/-- Every process has the address of every other one for its provider. -/
theorem known (p : DescribedProcesses resources document family sends type Node)
    (hfixed : family.FixedPorts) (n n' : Node) :
    (p.provider n', p.address n') ∈ (resources.providersOf type).zip (p.addresses n) :=
  mem_zip_of_made hfixed (p.ports n') (p.made n) (p.made n') (p.bound n')

theorem apart (p : DescribedProcesses resources document family sends type Node)
    (hfixed : family.FixedPorts) {n n' : Node} (hne : n ≠ n') :
    family.rank (p.address n) ≠ family.rank (p.address n') := by
  have hpairwise : (p.addresses n).Pairwise family.Apart :=
    ((p.loads n).starts _ (p.self n)).mp ⟨_, p.starts n⟩
  have hlength : (p.addresses n).length = (resources.providersOf type).length :=
    (p.made n).length_eq.symm
  rw [← List.map_snd_zip (Nat.le_of_eq hlength), List.pairwise_map] at hpairwise
  have hentries : p.provider n ≠ p.provider n' := fun heq => hne (p.single n n' heq)
  have hsymm : Std.Symm fun a b : (Bytes × PvdLeaf) × Address => family.Apart a.2 b.2 :=
    ⟨fun a b h => ⟨h.2.1, h.1, h.2.2.symm⟩⟩
  exact (hpairwise.forall (p.bound n) (p.known hfixed n n')
    fun heq => hentries (congrArg Prod.fst heq)).2.2

/-- The processes under the paths of their providers. -/
def book (p : DescribedProcesses resources document family sends type Node)
    (hfixed : family.FixedPorts) : Book family Node where
  address := p.address
  path n := fullPath (p.provider n)
  comparable := p.comparable
  apart n n' hrank := by
    by_contra hne
    exact p.apart hfixed hne hrank
  slash n := AppForest.slash_mem_fullPath p.named
    (List.mem_of_mem_filter (List.of_mem_zip (p.bound n)).1)

/-- The processes start with each other in their tables. -/
theorem follows (p : DescribedProcesses resources document family sends type Node)
    (hfixed : family.FixedPorts) (haccepts : Transport.udp.Accepts type) (n : Node) :
    (p.table n).Follows (p.book hfixed) := by
  obtain ⟨hcoherent, hkept, htype, hknown⟩ := (p.loads n).coherent (p.self n) (p.starts n)
  refine ⟨hcoherent, ⟨_, ?_, hkept⟩, ?_⟩
  · rw [← hkept.type, htype]
    exact haccepts
  · intro n'
    exact hknown _ (p.known hfixed n n') (p.comparable n')

variable [DecidableEq Node] [DecidableEq Address]

/-- The provider of this name at this port. -/
def pairLeaf (name : String) (port : Nat) : PvdLeaf :=
  ⟨literal name, .transUDP, IAliasPVD.convertible_transUDP,
    .trans ⟨literal "10.0.0.1", 0, port⟩⟩

/-- What it describes. -/
def pair : AppForest :=
  .cons (literal "A") (.single (literal "here") [pairLeaf "p" 12, pairLeaf "q" 13]) .nil

end DescribedProcesses

end CommonCommunicator
