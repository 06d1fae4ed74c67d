import KnowledgePrograms.Kripke.Draft
import KnowledgePrograms.Main
import KnowledgePrograms.Proofs.Formula.Dependence
import KnowledgePrograms.Proofs.Formula.FixedPoint
import KnowledgePrograms.Proofs.Formula.Legibility
import KnowledgePrograms.Proofs.Formula.Occurrence
import KnowledgePrograms.Proofs.Formula.Precedence
import KnowledgePrograms.Proofs.Formula.Termination
import KnowledgePrograms.Proofs.Kripke.Announcement
import KnowledgePrograms.Proofs.Kripke.Bisimulation
import KnowledgePrograms.Proofs.Kripke.CommonKnowledge
import KnowledgePrograms.Proofs.Kripke.Congruence
import KnowledgePrograms.Proofs.Kripke.Enumeration
import KnowledgePrograms.Proofs.Kripke.Indistinguishability
import KnowledgePrograms.Proofs.Kripke.Introspection
import KnowledgePrograms.Proofs.Kripke.Reduction
import KnowledgePrograms.Proofs.Kripke.References
import KnowledgePrograms.Proofs.Kripke.Rows
import KnowledgePrograms.Proofs.Kripke.Semantics
import KnowledgePrograms.Proofs.Kripke.Valuation
import KnowledgePrograms.Proofs.Program.Editing
import KnowledgePrograms.Proofs.Program.Explanation
import KnowledgePrograms.Proofs.Scenario.Silence
import KnowledgePrograms.Proofs.Scenario.SuccessiveAnswers
import KnowledgePrograms.Proofs.Scenario.Survival
import KnowledgePrograms.Proofs.Scenario.TrueAnswers
import KnowledgePrograms.Proofs.Session.Consistency
import KnowledgePrograms.Proofs.Session.Failure
import KnowledgePrograms.Proofs.Session.Idleness
import KnowledgePrograms.Proofs.Session.Lockstep
import KnowledgePrograms.Proofs.Session.Observation
import KnowledgePrograms.Proofs.Session.Permission
import KnowledgePrograms.Proofs.Session.Redistribution
import KnowledgePrograms.Proofs.Session.Secrecy
