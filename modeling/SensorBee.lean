import SensorBee.Strings
import SensorBee.Parser.Peg
import SensorBee.Parser.Ast
import SensorBee.Parser.Grammar
import SensorBee.Parser.ParseStack
import SensorBee.Parser.Acceptance
import SensorBee.Parser.StringLiteral
import SensorBee.Parser.WellFormed
import SensorBee.Parser.StackInvariant
import SensorBee.Parser.Reductions
import SensorBee.Parser.Execution
import SensorBee.Parser.Reads
import SensorBee.Parser.Lexical
import SensorBee.Parser.Ladder
import SensorBee.Parser.RoundTrip
import SensorBee.Parser.SelectRoundTrip
import SensorBee.Parser.StatementRoundTrip
import SensorBee.Data.Value
import SensorBee.Data.FieldName
import SensorBee.Data.Reflect
import SensorBee.Data.Decode
import SensorBee.Data.DecodeProperties
import SensorBee.Config.Storage
