import Dossier.Character.Alphabetic
import Dossier.Character.Mark
import Dossier.Character.Number
import Dossier.Character.Word
import Dossier.Clause
import Dossier.Command
import Dossier.Context
import Dossier.Dump
import Dossier.Failure
import Dossier.Folder
import Dossier.Format
import Dossier.Grammar.Document
import Dossier.Grammar.Edges
import Dossier.Grammar.Expression
import Dossier.Grammar.Production
import Dossier.Grammar.Progress
import Dossier.Grammar.Statement
import Dossier.Grammar.Token
import Dossier.Json
import Dossier.Legible
import Dossier.Lexeme
import Dossier.Lexeme.Form
import Dossier.Lexeme.Scan
import Dossier.Lexeme.Spelling
import Dossier.Lexeme.Tiling
import Dossier.Main
import Dossier.Outcome
import Dossier.Parse
import Dossier.Sample
import Dossier.Sequence
import Dossier.Session
import Dossier.Spec
import Dossier.Token
import Dossier.Tree
import Dossier.Tree.Json
import Dossier.Tree.Markup
import Dossier.Tree.Node
import Dossier.Tree.Outline
import Dossier.Tree.Path
import Dossier.Tree.Shape
import Dossier.Wording
import Dossier.Proofs.Correspondence
import Dossier.Proofs.Memory
import Dossier.Proofs.Choice
import Dossier.Proofs.Ranking
import Dossier.Proofs.Plain
import Dossier.Proofs.Search
import Dossier.Proofs.Derivation
import Dossier.Proofs.Spans
import Dossier.Proofs.Openings
import Dossier.Proofs.Loops
import Dossier.Proofs.Pruning
import Dossier.Proofs.Endings
import Dossier.Proofs.Alignment
import Dossier.Proofs.AlignedGrammar
import Dossier.Proofs.Noise
import Dossier.Proofs.Prefixes
import Dossier.Proofs.Header
import Dossier.Proofs.Yield
import Dossier.Proofs.Squares
import Dossier.Proofs.Shape
import Dossier.Proofs.Periods
import Dossier.Proofs.Paths
import Dossier.Proofs.Places
import Dossier.Proofs.ExpressionForms
import Dossier.Proofs.ExpressionWording
import Dossier.Proofs.EqualityWording
import Dossier.Proofs.StatementForms
import Dossier.Proofs.Room
import Dossier.Proofs.Branches
import Dossier.Proofs.Sentences
import Dossier.Proofs.Stopping
import Dossier.Proofs.StatementWording
import Dossier.Proofs.SumWording
import Dossier.Proofs.RoundTrip
import Dossier.Proofs.LexemeForms
import Dossier.Proofs.LexemeRivals
import Dossier.Proofs.LexemePlaces
import Dossier.Proofs.Reading
import Dossier.Proofs.Numbers
import Dossier.Proofs.LineBreaks
import Dossier.Proofs.Cuttings
import Dossier.Proofs.Spelling
import Dossier.Proofs.Tiling
import Dossier.Proofs.Texts
import Dossier.Proofs.NodeLabels
import Dossier.Proofs.Markup
import Dossier.Proofs.Unseparated
import Dossier.Proofs.PunctuationMarks
import Dossier.Proofs.RuleOrder
import Dossier.Proofs.WordBoundaries
import Dossier.Proofs.OutlineLines
import Dossier.Proofs.OutlineReading
import Dossier.Proofs.Kinds
import Dossier.Proofs.Skipping
import Dossier.Proofs.Requests
import Dossier.Proofs.TokenLines
import Dossier.Proofs.JsonText
import Dossier.Proofs.JsonTrees
