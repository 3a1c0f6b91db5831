import ScriptTyping.Config.Load
import ScriptTyping.Infer.Judgement
import ScriptTyping.Report
import ScriptTyping.Tree.Source
import ScriptTyping.Proofs.Promotion
import ScriptTyping.Proofs.Runs
import ScriptTyping.Proofs.InterfaceAccounts
import ScriptTyping.Proofs.FunctionMentions
import ScriptTyping.Proofs.NamingIndependence
import ScriptTyping.Proofs.CanonicalText
import ScriptTyping.Proofs.RegistryCounts
import ScriptTyping.Proofs.StableNames
import ScriptTyping.Proofs.WellFormedGuesses
import ScriptTyping.Proofs.IndependentStatements
import ScriptTyping.Proofs.GrowingReports
import ScriptTyping.Proofs.Layouts
import ScriptTyping.Proofs.Parentheses
import ScriptTyping.Proofs.Comments
import ScriptTyping.Proofs.Compositionality
import ScriptTyping.Proofs.NumberedInterfaces
import ScriptTyping.Proofs.UnitScores
import ScriptTyping.Proofs.Nesting
import ScriptTyping.Proofs.PrintedNames
import ScriptTyping.Proofs.InferredGuesses
import ScriptTyping.Proofs.PrintedTypes
import ScriptTyping.Proofs.BalancedTypes
import ScriptTyping.Proofs.PrintedShapes
import ScriptTyping.Proofs.PrintedUnions
import ScriptTyping.Proofs.MergedGuesses
import ScriptTyping.Proofs.LiteralSlots
import ScriptTyping.Proofs.ObjectLiterals
import ScriptTyping.Proofs.UnitScope
import ScriptTyping.Proofs.NestedFunctions
import ScriptTyping.Proofs.OwnReturns
import ScriptTyping.Proofs.FirstFaults
import ScriptTyping.Proofs.ShapeOrder
import ScriptTyping.Proofs.DecodedNames
import ScriptTyping.Proofs.IntegerKeys
import ScriptTyping.Proofs.ExactDoubles
import ScriptTyping.Proofs.ExponentKeys
import ScriptTyping.Proofs.StringKeys
import ScriptTyping.Proofs.ArrayTypes
import ScriptTyping.Proofs.LoadedSettings
import ScriptTyping.Proofs.WinningValues
import ScriptTyping.Proofs.RegistryTables
